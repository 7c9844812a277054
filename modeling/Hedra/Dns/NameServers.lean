/-
# The configured name servers and the walk over the parent domains

A lookup looks for name servers in the cache, from the name's parent domain up, and asks the first that
it finds beside the configured ones.  The list of the walk is the configured list itself, so what it
finds stays configured.

A walk changes nothing if and only if the first of the records it comes to that is of any use raises.
The condition is about the cache that the walk starts with; in between anything may happen to it.

The resolver is `distributed/discovery/dns/resolver/recursive_resolver.py`.

* `nsRecord_spec`: what a name server record comes to;
* `forParents_hosts`: a walk over names adds nothing if and only if it is quiet;
* `configured_iff`: the configured servers stay the same through a run if and only if all its walks
  are quiet.
-/
import Hedra.Dns.Lookups
import Hedra.Lib.Machine

namespace Hedra
namespace Dns

open Lib

/-! ## 1. Walks -/

/-- A `URL`, by its text. -/
structure Url where
  url : String
  ipType : Option RecordType
deriving DecidableEq

/-- What is in a list of name servers. -/
inductive Host
  | str
      (url : String)
  | url
      (url : Url)
deriving DecidableEq

/-- The names that `partition` goes on with, until nothing is left. -/
def partitions : List Char → List (List Char)
  | [] => [[]]
  | ch :: chs => if ch = '.' then chs :: (if chs = [] then [] else partitions chs) else partitions chs

/-- The names that come next are visited, but none behind `in-addr.arpa`. -/
def visited (fqdn : List Char) : List (List Char) → List (List Char)
  | [] => []
  | next :: rest => if fqdn = "in-addr.arpa".toList then [] else next :: visited next rest

/-- The parent domains of a name, in the order of the walk. -/
def parents (fqdn : String) : List String :=
  if fqdn = "" then [] else (visited fqdn.toList (partitions fqdn.toList)).map String.ofList

/-- The cache, and the names of `_get_matching_nameserver`. -/
structure Matching where
  cache : CacheNode
  hosts : List Host
  empty : Bool

namespace Matching

variable (url : Option RecordData → Option Url) (now : Rat)

/-- `for res in self.cache.query(host, self.nameserver_types)`, with what the query has listed.  The
flag is whether an exception has been raised; so it is below. -/
def forAddresses (m : Matching) : List Record → Matching × Bool
  | [] => (m, false)
  | res :: rest =>
    match url res.data with
    | none => (m, true)
    | some u => forAddresses { m with hosts := m.hosts ++ [.url u], empty := false } rest

/-- The body of the loop over name server records. -/
def nsRecord (m : Matching) (r : Record) : Matching × Bool :=
  match url r.data with
  | none => (m, true)
  | some u =>
    match u.ipType with
    | none =>
      let (cache, records) := m.cache.queryEach now u.url [.a]
      forAddresses url { m with cache := cache } (records.getD [])
    | some _ => ({ m with hosts := m.hosts ++ [.url u], empty := false }, false)

/-- `for rec in self.cache.query(fqdn, RecordType.NS)`, with what the query has listed: only records of
other types are looked up meanwhile. -/
def forNs (m : Matching) : List Record → Matching × Bool
  | [] => (m, false)
  | r :: rest =>
    match nsRecord url now m r with
    | (m, true) => (m, true)
    | (m, false) => forNs m rest

/-- `while fqdn and empty` -/
def forParents (m : Matching) : List String → Matching × Bool
  | [] => (m, false)
  | fqdn :: rest =>
    if m.empty then
      let (cache, records) := m.cache.query now fqdn .ns
      match forNs url now { m with cache := cache } (records.getD []) with
      | (m, true) => (m, true)
      | (m, false) => forParents m rest
    else (m, false)

end Matching

/-- What a resolver is configured with, and its cache. -/
structure RecursiveResolver where
  nameserverUrls : List Host
  cache : CacheNode

namespace RecursiveResolver

variable (url : Option RecordData → Option Url)

/-- `_get_matching_nameserver`: the list that it starts from is the resolver's. -/
def getMatchingNameserver (s : RecursiveResolver) (fqdn : String) (now : Rat) : RecursiveResolver × Bool :=
  let hosts := s.nameserverUrls
  let (m, raised) := Matching.forParents url now ⟨s.cache, hosts, true⟩ (parents fqdn)
  (⟨m.hosts, m.cache⟩, raised)

/-- What lookups do: `_get_matching_nameserver`, at one reading of the clock, for the name that
`query_cache` has come to; and whatever else is done to the cache, by replies, by `query_cache` and by
others.  A lookup that fails or is cancelled does no more. -/
inductive Event
  | walk
      (fqdn : String)
      (now : Rat)
  | cached
      (cache : CacheNode)

/-- The step of an event. -/
def step (s : RecursiveResolver) : Event → Option RecursiveResolver
  | .walk fqdn now => some (s.getMatchingNameserver url fqdn now).1
  | .cached cache => some { s with cache := cache }

end RecursiveResolver

/-! ## 2. What is found -/

/-- The records of a type that are not expired. -/
def CacheNode.fresh (now : Rat) (c : CacheNode) (fqdn : String) (t : RecordType) : List Record :=
  ((c.recordItems (c.pathOf fqdn) (some t)).filter
    fun i => CacheValue.checkTtl now i.2).map Prod.snd

/-- What a name server record is good for. -/
inductive Outcome
  | nothing
  | fails
  | supplies
deriving DecidableEq

section Outcome

variable (url : Option RecordData → Option Url) (now : Rat) (c : CacheNode)

/-- A name server is its own address, or the addresses of it that are cached are; and none is without
being a `URL`. -/
def outcome (r : Record) : Outcome :=
  match url r.data with
  | none => .fails
  | some u =>
    match u.ipType, c.fresh now u.url .a with
    | some _, _ => .supplies
    | none, [] => .nothing
    | none, res :: _ => if (url res.data).isSome then .supplies else .fails

/-- The first record that is good for anything fails, if there is one. -/
def Quiet (rs : List Record) : Prop :=
  ∀ r, rs.find? (fun r => outcome url now c r ≠ .nothing) = some r → outcome url now c r = .fails

/-- The name server records of the parent domains. -/
def parentRecords (fqdn : String) : List Record := (parents fqdn).flatMap fun d => c.fresh now d .ns

end Outcome

namespace CacheNode

variable {now : Rat} {c : CacheNode} {d : String} {t : RecordType}

/-- What a lookup of one type lists. -/
theorem query_fresh (ht : t ≠ .any) : (c.query now d t).2 = some (c.fresh now d t) := by
  rw [query_eq]
  unfold fresh recordItems pathOf
  cases c.get? (place "*" c.has (labels d)) with
  | none => rfl
  | some v =>
    simp only [CacheValue.get, if_neg ht, CacheValue.prune, Option.bind_some]
    cases v.data.get? (some t) <;> rfl

theorem queryEach_one (ht : t ≠ .any) :
    c.queryEach now d [t] = ((c.query now d t).1, some (c.fresh now d t)) := by
  have hlist := @query_fresh now c d t ht
  unfold queryEach
  rcases hquery : c.query now d t with ⟨c', records⟩
  rw [hquery] at hlist
  obtain rfl : records = _ := hlist
  simp [queryEach]

/-- What a lookup of one type drops. -/
theorem recordItems_query (ht : t ≠ .any) (q : List String) (u : Option RecordType) :
    (c.query now d t).1.recordItems q u =
      if q = c.pathOf d ∧ u = some t then
        (c.recordItems q u).filter fun i => CacheValue.checkTtl now i.2
      else c.recordItems q u := by
  unfold query
  rw [get_pathOf]
  by_cases hhas : c.has (c.pathOf d) = true
  · obtain ⟨v, hv⟩ := Option.isSome_iff_exists.mp hhas
    simp only [hhas, if_true, hv, CacheValue.get, if_neg ht]
    unfold recordItems
    rw [Trie.get?_modify]
    by_cases hq : q = c.pathOf d
    · subst hq
      simp only [if_true, true_and, hv, Option.map_some, Option.bind_some, CacheValue.prune]
      cases hr : v.data.get? (some t) with
      | none =>
        by_cases hu : u = some t
        · simp [hu, hr]
        · simp [hu]
      | some results =>
        by_cases hu : u = some t
        · simp only [hu, if_true, Dict.get?_set, hr, Option.map_some, Option.getD_some]
          rfl
        · simp only [Dict.get?_set_ne _ _ hu, if_neg hu]
    · simp [hq]
  · simp only [if_neg hhas]
    split
    · next heq =>
      rw [heq.1]
      simp [recordItems, get?_pathOf hhas]
    · rfl

/-- A lookup leaves the paths as they are. -/
theorem has_query (now : Rat) (c : CacheNode) (d : String) (t : RecordType) (q : List String) : (c.query now d t).1.has q = c.has q := by
  rcases get?_query now c d t q with h | ⟨v, v', hv, hv', -⟩
  · rw [Trie.has, h]
    rfl
  · rw [Trie.has, Trie.has, hv, hv']
    rfl

/-- What the lookups at one time list does not depend on which have been. -/
theorem fresh_query (ht : t ≠ .any) (d' : String) (t' : RecordType) :
    (c.query now d t).1.fresh now d' t' = c.fresh now d' t' := by
  have hpath : (c.query now d t).1.pathOf d' = c.pathOf d' := by
    rw [pathOf, pathOf, funext (has_query now c d t)]
  rw [fresh, fresh, hpath, recordItems_query ht]
  split
  · rw [List.filter_filter]
    simp only [Bool.and_self]
  · rfl

end CacheNode

/-! ## 3. What a walk does -/

section Outcome

variable {url : Option RecordData → Option Url} {now : Rat} {c c' : CacheNode} {r : Record}
  {rs : List Record}

theorem outcome_congr (h : ∀ d t, c'.fresh now d t = c.fresh now d t) :
    outcome url now c' = outcome url now c := by
  funext r
  unfold outcome
  simp only [h]

theorem Quiet.congr (h : ∀ d t, c'.fresh now d t = c.fresh now d t) :
    Quiet url now c' = Quiet url now c := by
  funext rs
  unfold Quiet
  rw [outcome_congr h]

theorem quiet_cons : Quiet url now c (r :: rs) ↔
    outcome url now c r = .fails ∨ outcome url now c r = .nothing ∧ Quiet url now c rs := by
  unfold Quiet
  cases h : outcome url now c r <;> simp [h]

theorem quiet_append {rs' : List Record} : Quiet url now c (rs ++ rs') ↔
    Quiet url now c rs ∧ ((∀ r ∈ rs, outcome url now c r = .nothing) → Quiet url now c rs') := by
  induction rs with
  | nil => simp [Quiet]
  | cons r rs ih =>
    rw [List.cons_append, quiet_cons, quiet_cons, ih]
    cases h : outcome url now c r <;> simp [h]

end Outcome

namespace Matching

variable {url : Option RecordData → Option Url} {now : Rat} {m m' m'' : Matching}

/-- What a part of a walk may do. -/
structure Follows (now : Rat) (m m' : Matching) : Prop where
  fresh : ∀ d t, m'.cache.fresh now d t = m.cache.fresh now d t
  hosts : m.hosts <+: m'.hosts
  empty : m'.hosts = m.hosts → m'.empty = m.empty

theorem Follows.refl (now : Rat) (m : Matching) : Follows now m m :=
  ⟨fun _ _ => rfl, List.prefix_refl _, fun _ => rfl⟩

/-- What has been added stays. -/
theorem Follows.hosts_eq (h : Follows now m m') (h' : Follows now m' m'') (heq : m''.hosts = m.hosts) :
    m'.hosts = m.hosts := by
  have hle := h'.hosts.length_le
  rw [heq] at hle
  exact (h.hosts.eq_of_length (Nat.le_antisymm h.hosts.length_le hle)).symm

theorem Follows.trans (h : Follows now m m') (h' : Follows now m' m'') : Follows now m m'' where
  fresh d t := (h'.fresh d t).trans (h.fresh d t)
  hosts := h.hosts.trans h'.hosts
  empty heq := by
    have hsame := h.hosts_eq h' heq
    rw [h'.empty (heq.trans hsame.symm), h.empty hsame]

theorem forAddresses_follows (m : Matching) (rs : List Record) :
    Follows now m (forAddresses url m rs).1 := by
  induction rs generalizing m with
  | nil => exact Follows.refl now m
  | cons res rest ih =>
    unfold forAddresses
    split
    · exact Follows.refl now m
    · next u hu =>
      have hadd := ih { m with hosts := m.hosts ++ [.url u], empty := false }
      have hprefix := (List.prefix_append m.hosts [.url u]).trans hadd.hosts
      refine ⟨hadd.fresh, hprefix, fun heq => ?_⟩
      -- The list has become longer.
      have hlength := hadd.hosts.length_le
      rw [heq, List.length_append, List.length_singleton] at hlength
      omega

/-- The first address decides. -/
theorem forAddresses_cons (m : Matching) (res : Record) (rest : List Record) :
    ((forAddresses url m (res :: rest)).1.hosts = m.hosts ↔ url res.data = none) ∧
      (url res.data = none → (forAddresses url m (res :: rest)).2 = true) := by
  unfold forAddresses
  cases hu : url res.data with
  | none => simp
  | some u =>
    refine ⟨⟨fun heq => ?_, nofun⟩, nofun⟩
    have hlength := (@forAddresses_follows url 0
      { m with hosts := m.hosts ++ [.url u], empty := false } rest).hosts.length_le
    rw [heq, List.length_append, List.length_singleton] at hlength
    omega

/-- **What is done with a name server record is its outcome.** -/
theorem nsRecord_spec (m : Matching) (r : Record) :
    Follows now m (nsRecord url now m r).1 ∧
      ((nsRecord url now m r).1.hosts = m.hosts ↔ outcome url now m.cache r ≠ .supplies) ∧
      (outcome url now m.cache r ≠ .supplies →
        ((nsRecord url now m r).2 = true ↔ outcome url now m.cache r = .fails)) := by
  unfold nsRecord outcome
  cases hu : url r.data with
  | none => exact ⟨Follows.refl now m, by simp, by simp⟩
  | some u =>
    cases htype : u.ipType with
    | some t =>
      simp only [htype]
      refine ⟨⟨fun _ _ => rfl, List.prefix_append _ _, fun heq => ?_⟩, by simp, by simp⟩
      simp at heq
    | none =>
      have hne : RecordType.a ≠ .any := by decide
      have hlookup : Follows now m { m with cache := (m.cache.query now u.url .a).1 } :=
        ⟨fun d t => CacheNode.fresh_query hne d t, List.prefix_refl _, fun _ => rfl⟩
      simp only [htype, CacheNode.queryEach_one hne, Option.getD_some]
      cases haddresses : m.cache.fresh now u.url .a with
      | nil => exact ⟨hlookup, by simp [forAddresses], by simp [forAddresses]⟩
      | cons res rest =>
        refine ⟨hlookup.trans (forAddresses_follows _ _), ?_, ?_⟩
        · refine (forAddresses_cons _ res rest).1.trans ?_
          cases hres : url res.data <;> simp [hres]
        · intro h
          have hnone : url res.data = none := by
            cases hres : url res.data <;> simp [hres] at h ⊢
          simp [(forAddresses_cons _ res rest).2 hnone, hnone]

/-- A loop over records goes on to the first that is good for anything. -/
theorem forNs_spec (m : Matching) (rs : List Record) :
    Follows now m (forNs url now m rs).1 ∧
      ((forNs url now m rs).1.hosts = m.hosts ↔ Quiet url now m.cache rs) ∧
      (Quiet url now m.cache rs → ((forNs url now m rs).2 = false ↔
        ∀ r ∈ rs, outcome url now m.cache r = .nothing)) := by
  induction rs generalizing m with
  | nil => exact ⟨Follows.refl now m, by simp [forNs, Quiet], by simp [forNs]⟩
  | cons r rs ih =>
    obtain ⟨hfollows, hhosts, hraised⟩ := @nsRecord_spec url now m r
    unfold forNs
    rcases hrun : nsRecord url now m r with ⟨m₁, raised⟩
    simp only [hrun] at hfollows hhosts hraised
    obtain ⟨hfollows', hhosts', hraised'⟩ := ih m₁
    rw [Quiet.congr hfollows.fresh] at hhosts' hraised'
    rw [outcome_congr hfollows.fresh] at hraised'
    rw [quiet_cons]
    cases hout : outcome url now m.cache r with
    | nothing =>
      have hsame : m₁.hosts = m.hosts := hhosts.mpr (by simp [hout])
      obtain rfl : raised = false := by simpa [hout] using hraised
      rw [hsame] at hhosts'
      refine ⟨hfollows.trans hfollows', by simpa using hhosts', fun hquiet => ?_⟩
      rw [List.forall_mem_cons, hraised' (hquiet.resolve_left nofun).2]
      exact ⟨fun h => ⟨hout, h⟩, fun h => h.2⟩
    | fails =>
      have hsame : m₁.hosts = m.hosts := hhosts.mpr (by simp [hout])
      obtain rfl : raised = true := by simpa [hout] using hraised
      exact ⟨hfollows, by simpa using hsame, by simp [hout]⟩
    | supplies =>
      have hne : m₁.hosts ≠ m.hosts := fun heq => hhosts.mp heq hout
      cases raised with
      | true => exact ⟨hfollows, by simpa using hne, by simp⟩
      | false =>
        refine ⟨hfollows.trans hfollows', ?_, by simp⟩
        simpa using fun heq => hne (hfollows.hosts_eq hfollows' heq)

/-- A lookup lists records and adds none. -/
theorem follows_query (m : Matching) (d : String) {t : RecordType} (ht : t ≠ .any) :
    Follows now m { m with cache := (m.cache.query now d t).1 } :=
  ⟨fun d' t' => CacheNode.fresh_query ht d' t', List.prefix_refl _, fun _ => rfl⟩

theorem forParents_follows (m : Matching) (ds : List String) :
    Follows now m (forParents url now m ds).1 := by
  induction ds generalizing m with
  | nil => exact Follows.refl now m
  | cons d ds ih =>
    have hne : RecordType.ns ≠ .any := by decide
    have hlookup : Follows now m _ := follows_query m d hne
    have hfollows := hlookup.trans (@forNs_spec url now _ (m.cache.fresh now d .ns)).1
    unfold forParents
    simp only [CacheNode.query_fresh hne, Option.getD_some]
    split
    · rcases hrun : forNs url now { m with cache := (m.cache.query now d .ns).1 }
        (m.cache.fresh now d .ns) with ⟨m₁, raised⟩
      rw [hrun] at hfollows
      cases raised with
      | true => exact hfollows
      | false => exact hfollows.trans (ih m₁)
    · exact Follows.refl now m

/-- **A walk over names adds nothing if and only if it is quiet.** -/
theorem forParents_hosts (m : Matching) (hempty : m.empty = true) (ds : List String) :
    (forParents url now m ds).1.hosts = m.hosts ↔
      Quiet url now m.cache (ds.flatMap fun d => m.cache.fresh now d .ns) := by
  induction ds generalizing m with
  | nil => simp [forParents, Quiet]
  | cons d ds ih =>
    have hne : RecordType.ns ≠ .any := by decide
    have hlookup : Follows now m _ := follows_query m d hne
    obtain ⟨hfollows, hhosts, hraised⟩ := @forNs_spec url now
      { m with cache := (m.cache.query now d .ns).1 } (m.cache.fresh now d .ns)
    rw [Quiet.congr hlookup.fresh] at hhosts hraised
    rw [outcome_congr hlookup.fresh] at hraised
    unfold forParents
    rw [if_pos hempty]
    simp only [CacheNode.query_fresh hne, Option.getD_some]
    rcases hrun : forNs url now { m with cache := (m.cache.query now d .ns).1 }
      (m.cache.fresh now d .ns) with ⟨m₁, raised⟩
    simp only [hrun] at hfollows hhosts hraised
    have hfollows := hlookup.trans hfollows
    rw [List.flatMap_cons, quiet_append]
    cases raised with
    | true =>
      refine hhosts.trans ⟨fun h => ⟨h, fun hall => ?_⟩, fun h => h.1⟩
      exact absurd ((hraised h).mpr hall) (by decide)
    | false =>
      by_cases hsame : m₁.hosts = m.hosts
      · have hhosts' := ih m₁ ((hfollows.empty hsame).trans hempty)
        rw [Quiet.congr hfollows.fresh, hsame] at hhosts'
        simp only [hfollows.fresh] at hhosts'
        refine hhosts'.trans ⟨fun h => ⟨hhosts.mp hsame, fun _ => h⟩, fun h => ?_⟩
        exact h.2 ((hraised h.1).mp rfl)
      · refine iff_of_false (fun heq => hsame ?_) fun h => hsame (hhosts.mpr h.1)
        exact hfollows.hosts_eq (forParents_follows m₁ ds) heq

end Matching

/-! ## 4. Runs -/

namespace RecursiveResolver

open Lib.Machine

variable (url : Option RecordData → Option Url)

/-- Before an event that leaves the configured name servers as they are. -/
def Leaves (s : RecursiveResolver) : Event → Prop
  | .walk fqdn now => Quiet url now s.cache (parentRecords now s.cache fqdn)
  | .cached _ => True

theorem getMatchingNameserver_iff (s : RecursiveResolver) (fqdn : String) (now : Rat) :
    (s.getMatchingNameserver url fqdn now).1.nameserverUrls = s.nameserverUrls ↔
      Quiet url now s.cache (parentRecords now s.cache fqdn) :=
  Matching.forParents_hosts ⟨s.cache, s.nameserverUrls, true⟩ rfl (parents fqdn)

/-- A step leaves the configuration as it is if and only if it says so. -/
theorem step_iff {s s' : RecursiveResolver} {e : Event} (h : step url s e = some s') :
    s'.nameserverUrls = s.nameserverUrls ↔ Leaves url s e := by
  cases e with
  | walk fqdn now =>
    obtain rfl := Option.some.inj h
    exact getMatchingNameserver_iff url s fqdn now
  | cached cache =>
    obtain rfl := Option.some.inj h
    exact iff_of_true rfl trivial

/-- **The configured name servers stay the same through a run if and only if every walk of it is
quiet.** -/
theorem configured_iff (s : RecursiveResolver) (events : List Event) :
    Always (step url) (fun t => t.nameserverUrls = s.nameserverUrls) s events ↔
      Along (step url) (fun t e _ => Leaves url t e) s events := by
  refine always_iff_along (fun t e t' ht hstep => ?_) rfl
  rw [← ht]
  exact step_iff url hstep

/-- With a name server of the parent domain in the cache each lookup adds its address once more. -/
theorem not_configured :
    let ns : Record := ⟨.queryType .response, "org", some .ns, 1, 300, some (.ns "ns.org"), 0⟩
    let address : Record := ⟨.queryType .response, "ns.org", some .a, 1, 300, some (.a "10.0.0.2"), 0⟩
    let url : Option RecordData → Option Url
      | some (.ns host) => some ⟨host, none⟩
      | some (.a host) => some ⟨host, none⟩
      | _ => none
    let s : RecursiveResolver := ⟨[.str "tcp://10.0.0.1"], (CacheNode.init.addRecord 0 ns).addRecord 0 address⟩
    (run (step url) s [.walk "a.org" 0, .walk "b.org" 0]).map nameserverUrls =
        some [.str "tcp://10.0.0.1", .url ⟨"10.0.0.2", none⟩, .url ⟨"10.0.0.2", none⟩] ∧
      ¬ Always (step url) (fun t => t.nameserverUrls = s.nameserverUrls) s
        [.walk "a.org" 0, .walk "b.org" 0] := by
  intro ns address url s
  have hrun : (run (step url) s [.walk "a.org" 0, .walk "b.org" 0]).map nameserverUrls =
      some [.str "tcp://10.0.0.1", .url ⟨"10.0.0.2", none⟩, .url ⟨"10.0.0.2", none⟩] := by
    decide +kernel
  refine ⟨hrun, fun h => ?_⟩
  obtain ⟨t, ht, hlast⟩ := h.exists_last hrun
  exact absurd (ht.symm.trans hlast) (by decide)

/-- What `_query_tick` does until it first waits, at one reading of the clock. -/
def queryTick (zoneDomains : List String) (limit : ℕ) (now : Rat) (s : RecursiveResolver)
    (msg : DnsMessage) (fqdn : String) (recordType : RecordType) (skipCache : Bool) :
    Option (RecursiveResolver × Bool) :=
  if skipCache then some (s.getMatchingNameserver url fqdn now)
  else
    match Search.queryCache (fun _ => now) zoneDomains limit ⟨s.cache, 0, msg⟩ fqdn recordType with
    | some (some (found, _, fqdn)) =>
      some (getMatchingNameserver url { s with cache := found.cache } fqdn now)
    | _ => none

/-- It is an event for the cache, and a walk. -/
theorem queryTick_eq_run {zoneDomains : List String} {limit : ℕ} {now : Rat}
    {s s' : RecursiveResolver} {msg : DnsMessage} {fqdn : String} {recordType : RecordType}
    {skipCache raised : Bool}
    (h : queryTick url zoneDomains limit now s msg fqdn recordType skipCache = some (s', raised)) :
    ∃ cache name, run (step url) s [.cached cache, .walk name now] = some s' := by
  unfold queryTick at h
  split at h
  · exact ⟨s.cache, fqdn, congrArg some (congrArg Prod.fst (Option.some.inj h))⟩
  · split at h
    · next found _ name _ =>
      exact ⟨found.cache, name, congrArg some (congrArg Prod.fst (Option.some.inj h))⟩
    · cases h

end RecursiveResolver

end Dns
end Hedra
