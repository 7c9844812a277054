/-
# Resource records

A `Record` (`distributed/discovery/dns/core/record/record.py`) is a question or a resource record;
which of the two decides whether it has a time to live and data on the wire.  `query_type` is meant
to be a `QueryType`, but `parse_entry` makes records of a plain integer, which is no `QueryType` and
compares equal to none.

Packing a record also ages it: what has passed since its timestamp is taken off its `ttl`.

The data of each type (`record_data_types`) are dumped and loaded here.  Addresses are written and
read by the functions of an operating system, which are a parameter (`Inet`).
-/
import Hedra.Dns.Names

namespace Hedra
namespace Dns

open Lib

/-! ## 1. Types -/

/-- `QueryType` -/
inductive QueryType
  | request
  | response
deriving DecidableEq

/-- `QueryType.value` -/
def QueryType.value : QueryType → Int
  | .request => 0
  | .response => 1

/-- `QueryType.by_value` -/
def QueryType.byValue : Nat → QueryType
  | 1 => .response
  | _ => .request

/-- What is passed for a `QueryType`. -/
inductive PyQueryType
  | queryType
      (queryType : QueryType)
  | int
      (value : Int)
deriving DecidableEq

/-- `query_type.value` -/
def PyQueryType.value : PyQueryType → Except Error Int
  | .queryType q => .ok q.value
  | .int _ => .error .attributeError

/-- `RecordType` -/
inductive RecordType
  | none
  | a
  | ns
  | cname
  | soa
  | ptr
  | mx
  | txt
  | aaaa
  | srv
  | naptr
  | any
deriving DecidableEq

/-- `RecordType.value` -/
def RecordType.value : RecordType → Int
  | .none => 0
  | .a => 1
  | .ns => 2
  | .cname => 5
  | .soa => 6
  | .ptr => 12
  | .mx => 15
  | .txt => 16
  | .aaaa => 28
  | .srv => 33
  | .naptr => 35
  | .any => 255

/-- `RecordTypesMap.types_by_code.get` -/
def RecordType.ofCode : Nat → Option RecordType
  | 0 => some .none
  | 1 => some .a
  | 2 => some .ns
  | 5 => some .cname
  | 6 => some .soa
  | 12 => some .ptr
  | 15 => some .mx
  | 16 => some .txt
  | 28 => some .aaaa
  | 33 => some .srv
  | 35 => some .naptr
  | 255 => some .any
  | _ => Option.none

/-- The codes are told apart. -/
theorem RecordType.ofCode_value (t : RecordType) : RecordType.ofCode t.value.toNat = some t := by
  cases t <;> rfl

/-- The subclasses of `RecordData`, with what they are made of. -/
inductive RecordData
  | a
      (data : String)
  | aaaa
      (data : String)
  | cname
      (data : String)
  | ns
      (data : String)
  | ptr
      (data : String)
  | mx
      (preference : Int)
      (exchange : String)
  | soa
      (mname rname : String)
      (serial refresh retry expire minimum : Int)
  | srv
      (priority weight port : Int)
      (hostname : String)
  | txt
      (data : String)
  | naptr
      (order preference : Int)
      (flags service regexp replacement : String)
  | unsupported
      (rtype : Option RecordType)
      (raw : String)
deriving DecidableEq

/-- The conversions of `socket` between addresses and their text. -/
structure Inet where
  aton : String → Except Error Bytes
  ntoa : Bytes → Except Error String
  pton6 : String → Except Error Bytes
  ntop6 : Bytes → Except Error String

/-- Conversions that raise, for runs in which no address is converted. -/
def Inet.raising : Inet where
  aton _ := .error .osError
  ntoa _ := .error .osError
  pton6 _ := .error .osError
  ntop6 _ := .error .osError

/-- A `Record`. -/
structure Record where
  queryType : PyQueryType
  name : String
  recordType : Option RecordType
  qclass : Int
  ttl : Int
  data : Option RecordData
  timestamp : Int
deriving DecidableEq

/-- `MAXAGE` -/
def maxAge : Int := 3600000

/-- `Record(query_type)` -/
def Record.ofType (queryType : PyQueryType) (now : Int) : Record where
  queryType := queryType
  name := ""
  recordType := some .any
  qclass := 1
  ttl := 0
  data := none
  timestamp := now

/-! ## 2. Record data -/

namespace RecordData

/-- `load` of the types whose data is a name. -/
def loadName (make : String → RecordData) (data : Bytes) (cursor : Nat) :
    Except Error (Nat × RecordData) := do
  let (cursor, domain) ← loadDomainName data cursor
  return (cursor, make domain)

/-- `MXRecordData.load` -/
def loadMx (data : Bytes) (cursor : Nat) : Except Error (Nat × RecordData) := do
  match ← unpackInts [2] (slice data cursor (cursor + 2)) with
  | [preference] =>
    let (cursor, exchange) ← loadDomainName data (cursor + 2)
    return (cursor, .mx preference exchange)
  | _ => throw .structError

/-- `SOARecordData.load` -/
def loadSoa (data : Bytes) (cursor : Nat) : Except Error (Nat × RecordData) := do
  let (cursor, mname) ← loadDomainName data cursor
  let (cursor, rname) ← loadDomainName data cursor
  match ← unpackInts [4, 4, 4, 4, 4] (slice data cursor (cursor + 20)) with
  | [serial, refresh, retry, expire, minimum] =>
    return (cursor + 20, .soa mname rname serial refresh retry expire minimum)
  | _ => throw .structError

/-- `SRVRecordData.load` -/
def loadSrv (data : Bytes) (cursor : Nat) : Except Error (Nat × RecordData) := do
  match ← unpackInts [2, 2, 2] (slice data cursor (cursor + 6)) with
  | [priority, weight, port] =>
    let (cursor, hostname) ← loadDomainName data (cursor + 6)
    return (cursor, .srv priority weight port hostname)
  | _ => throw .structError

/-- A text of `NAPTRRecordData.load`, behind its length. -/
def loadText (data : Bytes) (pos : Nat) : Except Error (Nat × String) := do
  let (pos, bytes) ← loadString data pos
  let text ← decode bytes
  return (pos, text)

/-- `NAPTRRecordData.load` -/
def loadNaptr (data : Bytes) (cursor : Nat) : Except Error (Nat × RecordData) := do
  match ← unpackInts [2, 2] (slice data cursor (cursor + 4)) with
  | [order, preference] =>
    let (pos, flags) ← loadText data (cursor + 4)
    let (pos, service) ← loadText data pos
    let (pos, regexp) ← loadText data pos
    let (cursor, replacement) ← loadDomainName data pos
    return (cursor, .naptr order preference flags service regexp replacement)
  | _ => throw .structError

/-- `Record.load_rdata`.  Of the other types `UnsupportedRecordData.load` makes data of `bytes`,
which have no `encode`. -/
def load (inet : Inet) (recordType : Option RecordType) (data : Bytes) (cursor size : Nat) :
    Except Error (Nat × RecordData) :=
  match recordType with
  | some .a => do
    let ip ← inet.ntoa (slice data cursor (cursor + size))
    return (cursor + size, .a ip)
  | some .aaaa => do
    let ip ← inet.ntop6 (slice data cursor (cursor + size))
    return (cursor + size, .aaaa ip)
  | some .cname => loadName .cname data cursor
  | some .ns => loadName .ns data cursor
  | some .ptr => loadName .ptr data cursor
  | some .mx => loadMx data cursor
  | some .soa => loadSoa data cursor
  | some .srv => loadSrv data cursor
  | some .txt => do
    let (_, text) ← loadString data cursor
    let text ← decode text
    return (cursor + size, .txt text)
  | some .naptr => loadNaptr data cursor
  | some .none | some .any | Option.none => .error .attributeError

/-- `b''.join(self.data.dump(names, offset))`, where two bytes for the length stand at `offset`.
`UnsupportedRecordData` yields a `str`, which cannot be joined. -/
def dump (inet : Inet) (names : Names) (offset : Nat) :
    RecordData → Except Error (Bytes × Names)
  | .a data => do return (← inet.aton data, names)
  | .aaaa data => do return (← inet.pton6 data, names)
  | .cname data | .ns data | .ptr data => packDomainName data names (offset + 2)
  | .mx preference exchange => do
    let preference ← packInts [(2, preference)]
    let (domainName, names) ← packDomainName exchange names (offset + 4)
    return (preference ++ domainName, names)
  | .soa mname rname serial refresh retry expire minimum => do
    let (mname, names) ← packDomainName mname names (offset + 2)
    let (domainName, names) ← packDomainName rname names (offset + 2 + mname.length)
    let recordBytes ←
      packInts [(4, serial), (4, refresh), (4, retry), (4, expire), (4, minimum)]
    return (mname ++ domainName ++ recordBytes, names)
  | .srv priority weight port hostname => do
    let recordBytes ← packInts [(2, priority), (2, weight), (2, port)]
    let (domainName, names) ← packDomainName hostname names (offset + 8)
    return (recordBytes ++ domainName, names)
  | .txt data => do return (← packString (encode data) 1, names)
  | .naptr .. => .error .notImplementedError
  | .unsupported .. => .error .typeError

end RecordData

/-! ## 3. Records -/

namespace Record

/-- `self.query_type == QueryType.RESPONSE` -/
def IsResponse (r : Record) : Prop := r.queryType = .queryType .response

instance (r : Record) : Decidable r.IsResponse :=
  inferInstanceAs (Decidable (r.queryType = .queryType .response))

/-- `Record.parse` -/
def parse (inet : Inet) (now : Int) (r : Record) (data : Bytes) (cursor : Nat) :
    Except Error (Nat × Record) := do
  let (cursor, name) ← loadDomainName data cursor
  match ← unpackInts [2, 2] (slice data cursor (cursor + 4)) with
  | [code, qclass] =>
    let r := { r with name := name, recordType := RecordType.ofCode code, qclass := qclass }
    let cursor := cursor + 4
    if r.IsResponse then
      match ← unpackInts [4, 2] (slice data cursor (cursor + 6)) with
      | [ttl, size] =>
        let cursor := cursor + 6
        let (_, rdata) ← RecordData.load inet r.recordType data cursor size
        return (cursor + size, { r with ttl := ttl, data := some rdata, timestamp := now })
      | _ => throw .structError
    else return (cursor, r)
  | _ => throw .structError

/-- What packing leaves of `ttl`, which the wire then has; a negative one is sent as `MAXAGE`. -/
def age (now : Int) (r : Record) : Record × Int :=
  if r.ttl < 0 then (r, maxAge)
  else
    let ttl := max (r.ttl - (now - r.timestamp)) 0
    ({ r with ttl := ttl, timestamp := now }, ttl)

/-- `Record.pack`.  The second component is the table, the third the record, aged. -/
def pack (inet : Inet) (now : Int) (r : Record) (names : Names) (offset : Nat) :
    Except Error (Bytes × Names × Record) := do
  let (name, names) ← packDomainName r.name names offset
  match r.recordType with
  | Option.none => throw .attributeError
  | some recordType =>
    let typeAndClass ← packInts [(2, recordType.value), (2, r.qclass)]
    let head := name ++ typeAndClass
    if r.IsResponse then
      let (r, ttl) := r.age now
      let head := head ++ (← packInts [(4, ttl)])
      match r.data with
      | Option.none => throw .attributeError
      | some data =>
        let (rdata, names) ← data.dump inet names (offset + head.length)
        let dataStr ← packString rdata 2
        return (head ++ dataStr, names, r)
    else return (head, names, r)

end Record

end Dns
end Hedra
