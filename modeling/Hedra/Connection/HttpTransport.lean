/-
# Encrypted HTTP messages

A client encrypts a request, compresses what it gets, and writes that.  The server that reads it with
encryption enabled encrypts and compresses it once more, where it would have to decompress and decrypt
it, and takes the result for the lines of a request.  A client parses what it reads of a response as
it is.

A frame of zstandard begins with a magic number that is neither the begin of a message nor UTF-8, and
so nothing that is encrypted is ever read.

The code is in `distributed/connection/tcp/mercury_sync_http_connection.py` and
`distributed/encryption/aes_gcm.py`.  The cipher and zstandard are parameters, of which only what a
frame begins with is asked.

* `magic_append_ne_encode`: no text has UTF-8 bytes that begin with the magic number;
* `never_arrives`: so no request that is encrypted is answered, and no response decoded.
-/
import Hedra.Connection.HttpMessage
import Hedra.Lib.Utf8

namespace Hedra
namespace Http

open Lib Separated Utf8

abbrev Bytes := List UInt8

/-- `AESGCM(key)`, without associated data: of a key, a nonce and the data. -/
structure Aead where
  encrypt : Bytes → Bytes → Bytes → Bytes
  decrypt : Bytes → Bytes → Bytes → Option Bytes
  decrypt_encrypt : ∀ key nonce data, decrypt key nonce (encrypt key nonce data) = some data
  encrypt_of_decrypt : ∀ key nonce data plain,
    decrypt key nonce data = some plain → encrypt key nonce plain = data

/-- The first bytes of a frame. -/
def magic : Bytes := [0x28, 0xB5, 0x2F, 0xFD]

structure Zstandard where
  compress : Bytes → Bytes
  decompress : Bytes → Option Bytes
  decompress_compress : ∀ data, decompress (compress data) = some data
  magic_compress : ∀ data, magic <+: compress data

/-- What `secrets.token_bytes` gives for a message. -/
structure Tokens where
  key : Bytes
  nonce : Bytes
  length_key : key.length = 32
  length_nonce : nonce.length = 12

/-! ## 1. Writing and reading -/

structure Transport where
  aead : Aead
  zstd : Zstandard

namespace Transport

variable (t : Transport)

/-- `AESGCMFernet.encrypt` -/
def encrypt (tokens : Tokens) (data : Bytes) : Bytes :=
  tokens.key ++ tokens.nonce ++ t.aead.encrypt tokens.key tokens.nonce data

/-- `AESGCMFernet.decrypt` -/
def decrypt (data : Bytes) : Option Bytes :=
  t.aead.decrypt (data.take 32) ((data.drop 32).take 12) (data.drop 44)

/-- What `send` writes of the text of a request. -/
def send (tokens : Tokens) (encodedRequest : Bytes) : Bytes :=
  t.zstd.compress (t.encrypt tokens encodedRequest)

/-- What `_route_request` takes for the request. -/
def requestBytes (useEncryption : Bool) (tokens : Tokens) (data : Bytes) : Bytes :=
  if useEncryption then t.zstd.compress (t.encrypt tokens data) else data

/-- The last is that of a message for an error. -/
inductive RouteError
  | unicodeDecodeError
  | valueError
  | validationError
deriving DecidableEq

/-- `_route_request`, up to where it looks for the handler: the lines, and the method, the path and
the request type of the first one.  What it raises here is not caught. -/
def routeRequest (useEncryption : Bool) (tokens : Tokens) (data : Bytes) :
    Except RouteError (List Bytes × Str × Str × Str) :=
  let requestData := split (byte '\r') (byte '\n') (t.requestBytes useEncryption tokens data)
  match decode (requestData.headD []) with
  | none => .error .unicodeDecodeError
  | some line =>
    match line.splitOn ' ' with
    | [method, path, requestType] => .ok (requestData, method, path, requestType)
    | _ => .error .valueError

/-- What is written of a response. -/
def respond (useEncryption : Bool) (tokens : Tokens) (response : Bytes) : Bytes :=
  if useEncryption then t.zstd.compress (t.encrypt tokens response) else response

/-- What `read` of a client gives to `HTTPRequest.parse`. -/
def responseBytes (data : Bytes) : Bytes := data

/-- The first line that `HTTPRequest.parse` decodes. -/
def statusLine (data : Bytes) : Option Str :=
  decode ((split (byte '\r') (byte '\n') (responseBytes data)).headD [])

/-! ## 2. What arrives -/

/-- **The server routes the request that was encrypted.** -/
def RequestArrives (sent routed : Tokens) (request : Str) : Prop :=
  t.requestBytes true routed (t.send sent (encode request)) = encode request

/-- **The client parses the response that was encrypted.** -/
def ResponseArrives (sent : Tokens) (response : Str) : Prop :=
  responseBytes (t.respond true sent (encode response)) = encode response

variable {t} {tokens : Tokens} {data : Bytes}

/-- The tokens are sent along. -/
theorem decrypt_encrypt (tokens : Tokens) (data : Bytes) :
    t.decrypt (t.encrypt tokens data) = some data := by
  obtain ⟨key, nonce, hkey, hnonce⟩ := tokens
  have hlength : (key ++ nonce).length = 44 := by rw [List.length_append, hkey, hnonce]
  unfold decrypt encrypt
  rw [List.append_assoc, List.take_left' hkey, List.drop_left' hkey, List.take_left' hnonce,
    ← List.append_assoc, List.drop_left' hlength]
  exact t.aead.decrypt_encrypt key nonce data

/-- Undoing in the order of `send` would give the request. -/
theorem opened_send (tokens : Tokens) (data : Bytes) :
    (t.zstd.decompress (t.send tokens data)).bind t.decrypt = some data := by
  rw [send, t.zstd.decompress_compress]
  exact decrypt_encrypt tokens data

/-- **The magic number is not UTF-8**: its second byte begins no character. -/
theorem magic_append_ne_encode (r : Bytes) (s : Str) : magic ++ r ≠ encode s := by
  intro h
  rcases first_encode h.symm with ⟨-, rest, hrest⟩ | hfirst
  · rcases first_encode hrest.symm with ⟨hsecond, -⟩ | hsecond
    · exact absurd hsecond (by decide)
    · exact absurd hsecond (by decide)
  · exact absurd hfirst (by decide)

theorem compress_ne_encode (t : Transport) (data : Bytes) (s : Str) : t.zstd.compress data ≠ encode s := by
  obtain ⟨r, hr⟩ := t.zstd.magic_compress data
  exact hr ▸ magic_append_ne_encode r s

/-- The first line of a frame cannot be decoded. -/
theorem decode_first_line (t : Transport) (data : Bytes) :
    decode ((split (byte '\r') (byte '\n') (t.zstd.compress data)).headD []) = none := by
  obtain ⟨r, hr⟩ := t.zstd.magic_compress data
  have hsplit : split (byte '\r') (byte '\n') (magic ++ r) =
      (split (byte '\r') (byte '\n') r).modifyHead (magic ++ ·) :=
    split_append_of_not_mem (by decide) r
  rw [← hr, hsplit]
  cases hlines : split (byte '\r') (byte '\n') r with
  | nil => exact absurd hlines (split_ne_nil r)
  | cons line lines =>
    cases hdecode : decode (magic ++ line) with
    | none => exact hdecode
    | some s => exact absurd (exists_of_decode hdecode) (magic_append_ne_encode line s)

/-- **Nothing that is encrypted arrives.**  The server raises an error before it looks for a handler,
and the client cannot decode the status line. -/
theorem never_arrives (t : Transport) (sent routed : Tokens) (request response : Str) :
    ¬ t.RequestArrives sent routed request ∧
      t.routeRequest true routed (t.send sent (encode request)) = .error .unicodeDecodeError ∧
      ¬ t.ResponseArrives sent response ∧
      statusLine (t.respond true sent (encode response)) = none := by
  have hroute : t.routeRequest true routed (t.send sent (encode request)) =
      .error .unicodeDecodeError := by
    unfold routeRequest requestBytes
    rw [if_pos rfl]
    dsimp only
    rw [decode_first_line]
  refine ⟨compress_ne_encode t _ request, hroute, compress_ne_encode t _ response, ?_⟩
  exact decode_first_line t _

/-- Without encryption a request is routed as it was sent. -/
theorem routeRequest_plain {M V : Type} {py : Python V M} (r : HTTPRequest M) (routed : Tokens)
    (h : ∀ params, r.params = some params → params.items = []) :
    ∃ text, r.prepareRequest py = .ok text ∧
      t.routeRequest false routed (encode text) =
        .ok ((splitLines text).map encode, r.method.method.value, r.url.path, "HTTP/1.1".toList) := by
  obtain ⟨text, htext, hlines⟩ := @prepareRequest_eq V M py r h
  refine ⟨text, htext, ?_⟩
  have hsplit : split (byte '\r') (byte '\n') (encode text) = (splitLines text).map encode :=
    split_encode (by decide) (by decide) text
  have hfirst : decode (((splitLines text).map encode).headD []) = some (requestLine r) := by
    rw [hlines]
    exact decode_encode (requestLine r)
  unfold routeRequest requestBytes
  rw [if_neg Bool.false_ne_true]
  dsimp only
  rw [hsplit, hfirst]
  dsimp only
  rw [splitOn_requestLine]

/-- A cipher that changes nothing, and frames that are the data behind the magic number. -/
def plainTransport : Transport where
  aead :=
    { encrypt _ _ data := data
      decrypt _ _ data := some data
      decrypt_encrypt _ _ _ := rfl
      encrypt_of_decrypt _ _ _ _ h := (Option.some.inj h).symm }
  zstd :=
    { compress data := magic ++ data
      decompress data := some (data.drop 4)
      decompress_compress _ := rfl
      magic_compress data := List.prefix_append magic data }

def zeroTokens : Tokens where
  key := List.replicate 32 0
  nonce := List.replicate 12 0
  length_key := List.length_replicate
  length_nonce := List.length_replicate

theorem request_lost :
    ¬ plainTransport.RequestArrives zeroTokens zeroTokens "GET / HTTP/1.1\r\nhost: h\r\n\r\n".toList ∧
      ¬ plainTransport.ResponseArrives zeroTokens "HTTP/1.1 200 OK\r\ncontent-length: 0\r\n\r\n".toList :=
  ⟨compress_ne_encode _ _ _, compress_ne_encode _ _ _⟩

end Transport

end Http
end Hedra
