/-
# The runs of the HTTP client

Every step that is `Orderly` keeps the transports and the waiters paired, and a step that is not leaves
the client unsound: a pool has another size, a closed transport was handed out, or a reply went to
another call than the one that has awaited it.

The steps are those of `HttpPool.lean`, of
`distributed/connection/tcp/mercury_sync_http_connection.py`.  What carries the induction is `Inv`:
every transport is in its pool or with one call, and so is every waiter with its call.

* `Admitted.step`: no more calls are within the semaphore than it admits, whatever happens;
* `sound_iff_orderly`: the client is sound in every state of a run exactly if every step of it is
  orderly.
-/
import Hedra.Connection.HttpPool

namespace Hedra
namespace HttpPool

open Lib Machine

variable {α ρ δ : Type} [DecidableEq α]

/-! ## 1. Every step -/

/-- What holds of a client as long as every step is `Orderly`. -/
structure Inv (c : Client α ρ) : Prop where
  stock : Stock c.size c.connections c.calls c.next
  paired : Paired c.calls c.waiters c.futures
  handed : ∀ h ∈ c.handed, h.2 = false
  delivered : ∀ d ∈ c.deliveries, d.given = d.owner

theorem Inv.sound {c : Client α ρ} (h : Inv c) : Sound c := by
  refine ⟨h.stock.conserved, h.handed, h.delivered, fun call hcall t r hstage => ?_⟩
  have hfits := h.paired.fits call hcall
  rw [Call.Fits, hstage] at hfits
  exact hfits

section Step

variable {c c' : Client α ρ} {i : ℕ} {call : Call α ρ} {stage : Stage ρ}

/-- A call that has neither a transport nor a waiter goes on without them. -/
theorem Inv.idle (h : Inv c) (hi : c.calls[i]? = some call) (hholds : call.holds = none)
    (hwaiter : call.waiter = none)
    (hstage : (stage = .connecting ∧ ∀ ts, c.connections.get? call.address ≠ some (some ts)) ∨
      stage = .raised) : Inv (c.setStage i call stage) := by
  have hnot : ∀ w, call.waiter = some w → w ∉ c.waiters := by
    intro w hw
    rw [hwaiter] at hw
    cases hw
  rcases hstage with ⟨rfl, hunlisted⟩ | rfl
  · have hstock : Stock c.size c.connections (c.calls.set i { call with stage := .connecting }) c.next :=
      h.stock.quiet hi hholds rfl fun _ => hunlisted
    exact ⟨hstock, h.paired.settle hi hnot rfl trivial, h.handed, h.delivered⟩
  · have hstock : Stock c.size c.connections (c.calls.set i { call with stage := .raised }) c.next :=
      h.stock.quiet hi hholds rfl nofun
    exact ⟨hstock, h.paired.settle hi hnot rfl trivial, h.handed, h.delivered⟩

theorem Inv.idle_leave (h : Inv c) (hi : c.calls[i]? = some call) (hholds : call.holds = none)
    (hwaiter : call.waiter = none) : Inv (c.leave i call .raised) := by
  have hpermits : Inv { c with permits := c.permits + 1 } := ⟨h.stock, h.paired, h.handed, h.delivered⟩
  exact hpermits.idle hi hholds hwaiter (Or.inr rfl)

theorem Inv.take (h : Inv c) (hi : c.calls[i]? = some call) (hwaiting : call.stage = .waiting)
    (hopen : ∀ ts, c.connections.get? call.address = some (some ts) → ∀ t ∈ ts.getLast?, t ∉ c.closed)
    (written : Bool) : Inv (c.take i call written) := by
  have hholds : call.holds = none := by rw [Call.holds, hwaiting]
  have hwaiter : call.waiter = none := by rw [Call.waiter, hwaiting]
  have hraised := h.idle hi hholds hwaiter (Or.inr rfl)
  cases hget : c.connections.get? call.address with
  | none => simpa only [Client.take, hget] using hraised
  | some pool =>
    cases pool with
    | none => simpa only [Client.take, hget] using hraised
    | some ts =>
      cases hlast : ts.getLast? with
      | none => simpa only [Client.take, hget, hlast] using hraised
      | some t =>
        have hts : ts.dropLast ++ [t] = ts := List.dropLast_append_getLast? t hlast
        have hhanded : ∀ h ∈ c.handed ++ [(t, decide (t ∈ c.closed))], h.2 = false := by
          intro p hp
          rcases List.mem_append.mp hp with hmem | hmem
          · exact h.handed p hmem
          · rw [List.mem_singleton.mp hmem]
            exact decide_eq_false (hopen ts hget t hlast)
        have hstock : ∀ stage : Stage ρ, Call.holds { call with stage := stage } = some t →
            stage ≠ .connecting → Stock c.size (c.connections.set call.address (some ts.dropLast))
              (c.calls.set i { call with stage := stage }) c.next := by
          intro stage hstage hne
          refine h.stock.move hi rfl hne hget ?_
          rw [hstage, hholds, Option.toList_some, Option.toList_none, hts, List.append_nil]
        simp only [Client.take, hget, hlast]
        cases written with
        | true => exact ⟨hstock _ rfl (fun heq => by cases heq), h.paired.enroll hi hwaiter rfl, hhanded, h.delivered⟩
        | false =>
          have hnot : ∀ w, call.waiter = some w → w ∉ c.waiters := by
            intro w hw
            rw [hwaiter] at hw
            cases hw
          exact ⟨hstock _ rfl (fun heq => by cases heq), h.paired.settle hi hnot rfl trivial, hhanded, h.delivered⟩

/-- A call gives its transport back. -/
theorem Inv.resume {t w : ℕ} {r : Reply ρ} (h : Inv c) (hi : c.calls[i]? = some call)
    (hstage : call.stage = .awaiting t w) (hresult : c.futures[w]? = some (.result r)) :
    ∃ c₁, c.append call.address t = some c₁ ∧ Inv (c₁.leave i call (.returned t (some r))) := by
  have hmem : call ∈ c.calls := List.mem_of_getElem? hi
  have hholds := holds_of_awaiting hstage
  obtain ⟨ts, hget⟩ := h.stock.listed call hmem (by rw [hholds]; rfl)
  obtain ⟨hnot, ht⟩ := (h.paired.fits call hmem).of_result hstage hresult
  refine ⟨{ c with connections := c.connections.set call.address (some (ts ++ [t])) }, ?_, ?_, ?_,
    h.handed, h.delivered⟩
  · rw [Client.append, hget]
  · refine h.stock.move hi rfl nofun hget ?_
    rw [hholds, Option.toList_some]
    exact (List.append_nil _).symm ▸ List.Perm.refl _
  · refine h.paired.settle hi (fun u hu => ?_) rfl ht
    rw [waiter_of_awaiting hstage, Option.some.injEq] at hu
    exact hu ▸ hnot

omit [DecidableEq α] in
theorem awaits_iff {futures : List (Future (Reply ρ))} {t : ℕ} :
    call.awaits futures t = true ↔ ∃ w, call.stage = .awaiting t w ∧ Future.IsPending futures w := by
  unfold Call.awaits
  split
  · next u w hstage =>
    rw [decide_eq_true_iff, hstage]
    constructor
    · rintro ⟨rfl, hpending⟩
      exact ⟨w, rfl, hpending⟩
    · rintro ⟨w', heq, hpending⟩
      obtain ⟨rfl, rfl⟩ := Stage.awaiting.inj heq
      exact ⟨rfl, hpending⟩
  · next hstage =>
    exact iff_of_false Bool.false_ne_true fun ⟨w, heq, _⟩ => hstage t w heq

omit [DecidableEq α] in
theorem owner_eq_none_iff {t : ℕ} :
    c.owner t = none ↔ ∀ call ∈ c.calls, call.awaits c.futures t ≠ true := by
  unfold Client.owner
  simp only [List.findIdx?_eq_none_iff, Bool.eq_false_iff]

omit [DecidableEq α] in
/-- A call that awaits a reply awaits it on one transport. -/
theorem eq_of_owner_eq {t u j : ℕ} (ht : c.owner t = some j) (hu : c.owner u = some j) : u = t := by
  obtain ⟨hlt, hawaits, -⟩ := List.findIdx?_eq_some_iff_getElem.mp ht
  obtain ⟨_, hawaits', -⟩ := List.findIdx?_eq_some_iff_getElem.mp hu
  obtain ⟨w, hstage, -⟩ := awaits_iff.mp hawaits
  obtain ⟨w', hstage', -⟩ := awaits_iff.mp hawaits'
  exact (Stage.awaiting.inj (hstage'.symm.trans hstage)).1

theorem Inv.eq_of_holds {x y : Call α ρ} {t : ℕ} (h : Inv c) (hx : x ∈ c.calls) (hy : y ∈ c.calls)
    (hxt : x.holds = some t) (hyt : y.holds = some t) : x = y :=
  Tasks.eq_of_filterMap_nodup (List.nodup_append.mp h.stock.nodup).2.1 hx hy hxt hyt

/-- The call of a waiter in the deque is the one that awaits a reply on its transport. -/
theorem Inv.owner_eq {t w : ℕ} (h : Inv c) (hw : w ∈ c.waiters) (hcall : call ∈ c.calls)
    (hstage : call.stage = .awaiting t w) :
    (c.calls.findIdx? fun call => call.waiter = some w) = c.owner t := by
  refine Tasks.findIdx?_congr fun x hx => ?_
  rw [Bool.eq_iff_iff, decide_eq_true_iff, awaits_iff]
  constructor
  · intro hxw
    obtain rfl := Tasks.eq_of_filterMap_nodup h.paired.alone hx hcall hxw (waiter_of_awaiting hstage)
    exact ⟨w, hstage, (h.paired.exists_call hw).1⟩
  · rintro ⟨u, hxstage, -⟩
    obtain rfl := h.eq_of_holds hx hcall (holds_of_awaiting hxstage) (holds_of_awaiting hstage)
    exact waiter_of_awaiting hstage

/-- What arrives is given to whom it is for. -/
theorem Inv.given_eq_owner_iff {parse : δ → Option ρ} {t : ℕ} {data : δ} (h : Inv c) :
    c.given parse data = c.owner t ↔ Orderly parse c (.received t data : Event α δ) := by
  unfold Client.given
  split
  · next w message hlast hparse =>
    have hw : w ∈ c.waiters := List.mem_of_getLast? hlast
    obtain ⟨hpending, x, hx, hxw⟩ := h.paired.exists_call hw
    rw [if_pos hpending]
    obtain ⟨u, hstage⟩ := exists_awaiting hxw
    rw [h.owner_eq hw hx hstage]
    constructor
    · intro heq
      have hsome : c.owner u ≠ none := fun hnone =>
        owner_eq_none_iff.mp hnone x hx (awaits_iff.mpr ⟨w, hstage, hpending⟩)
      obtain ⟨j, hj⟩ := Option.ne_none_iff_exists'.mp hsome
      obtain rfl : u = t := eq_of_owner_eq (heq ▸ hj) hj
      refine ⟨fun call hcall hawaits => ⟨by rw [hparse]; rfl, ?_⟩, fun _ w' hw' => ⟨x, hx, ?_, ?_⟩⟩
      · obtain ⟨w', hstage', -⟩ := awaits_iff.mp hawaits
        obtain rfl := h.eq_of_holds hcall hx (holds_of_awaiting hstage') (holds_of_awaiting hstage)
        exact hxw.trans hlast.symm
      · exact hxw.trans (hlast.symm.trans hw')
      · exact holds_of_awaiting hstage
    · rintro ⟨-, hclause⟩
      obtain ⟨call, hcall, hwaiter, hholds⟩ := hclause (by rw [hparse]; rfl) w hlast
      obtain rfl := Tasks.eq_of_filterMap_nodup h.paired.alone hcall hx hwaiter hxw
      rw [holds_of_awaiting hstage, Option.some.injEq] at hholds
      rw [hholds]
  · next hnot =>
    rw [eq_comm, owner_eq_none_iff]
    constructor
    · intro hnobody
      refine ⟨fun call hcall hawaits => absurd hawaits (hnobody call hcall), fun hsome w hw => ?_⟩
      obtain ⟨message, hmessage⟩ := Option.isSome_iff_exists.mp hsome
      exact absurd hmessage (hnot w message hw)
    · rintro ⟨hclause, -⟩ call hcall hawaits
      obtain ⟨hsome, hwaiter⟩ := hclause call hcall hawaits
      obtain ⟨message, hmessage⟩ := Option.isSome_iff_exists.mp hsome
      obtain ⟨w, hstage, -⟩ := awaits_iff.mp hawaits
      exact hnot w message (hwaiter.symm.trans (waiter_of_awaiting hstage)) hmessage

theorem Inv.read {parse : δ → Option ρ} {t : ℕ} {data : δ} (h : Inv c)
    (ho : Orderly parse c (.received t data : Event α δ)) : Inv (c.read parse t data) := by
  have hdelivered : ∀ d ∈ c.deliveries ++ [⟨c.given parse data, c.owner t⟩], d.given = d.owner := by
    intro d hd
    rcases List.mem_append.mp hd with hmem | hmem
    · exact h.delivered d hmem
    · rw [List.mem_singleton.mp hmem]
      exact h.given_eq_owner_iff.mpr ho
  simp only [Client.read]
  split
  · exact ⟨h.stock, h.paired, h.handed, hdelivered⟩
  · next w hlast =>
    have hpaired : Paired c.calls (c.waiters.dropLast ++ [w]) c.futures := by
      rw [List.dropLast_append_getLast? w hlast]
      exact h.paired
    split
    · exact ⟨h.stock, hpaired.discard, h.handed, hdelivered⟩
    · next message hparse =>
      obtain ⟨call, hcall, hwaiter, hholds⟩ := ho.2 (by rw [hparse]; rfl) w hlast
      obtain ⟨u, hstage⟩ := exists_awaiting hwaiter
      obtain rfl : u = t := Option.some.inj ((holds_of_awaiting hstage).symm.trans hholds)
      exact ⟨h.stock, hpaired.deliver hcall hstage message, h.handed, hdelivered⟩

end Step

/-! ## 2. What a step can do -/

/-- The call is inside the semaphore. -/
def Call.inside (call : Call α ρ) : Bool :=
  match call.stage with
  | .connecting | .awaiting _ _ | .reconnecting _ => true
  | .waiting | .returned _ _ | .raised => false

section Inversion

variable {parse : δ → Option ρ} {c c' : Client α ρ} {i : ℕ}

theorem step_enter {prepared written : Bool}
    (hs : Client.step parse c (.enter i prepared written) = some c') :
    ∃ call, c.calls[i]? = some call ∧ call.stage = .waiting ∧ 0 < c.permits ∧
      c' = c.enter i call prepared written := by
  simp only [Client.step] at hs
  split at hs
  · next call hi =>
    split at hs
    · next hstage =>
      split at hs
      · next hpermits => exact ⟨call, hi, hstage, hpermits, (Option.some.inj hs).symm⟩
      · cases hs
    · cases hs
  · cases hs

theorem step_connected {ok : Bool} (hs : Client.step parse c (.connected i ok) = some c') :
    ∃ call, c.calls[i]? = some call ∧ call.stage = .connecting ∧ c' = c.afterConnect i call ok := by
  simp only [Client.step] at hs
  split at hs
  · next call hi =>
    split at hs
    · next hstage => exact ⟨call, hi, hstage, (Option.some.inj hs).symm⟩
    · cases hs
  · cases hs

theorem step_reconnected {ok : Bool} (hs : Client.step parse c (.reconnected i ok) = some c') :
    ∃ call t, c.calls[i]? = some call ∧ call.stage = .reconnecting t ∧
      c' = c.afterReconnect i call t ok := by
  simp only [Client.step] at hs
  split at hs
  · next call hi =>
    split at hs
    · next t hstage => exact ⟨call, t, hi, hstage, (Option.some.inj hs).symm⟩
    · cases hs
  · cases hs

/-- A call goes on with a result, and gives its transport back if it can. -/
theorem step_resume (hs : Client.step parse c (.resume i) = some c') :
    ∃ call t w r, c.calls[i]? = some call ∧ call.stage = .awaiting t w ∧
      c.futures[w]? = some (.result r) ∧
      ((c.append call.address t = none ∧ c' = c.leave i call .raised) ∨
        ∃ c₁, c.append call.address t = some c₁ ∧ c' = c₁.leave i call (.returned t (some r))) := by
  simp only [Client.step] at hs
  split at hs
  · next call hi =>
    split at hs
    · next t w hstage =>
      split at hs
      · next r hresult =>
        refine ⟨call, t, w, r, hi, hstage, hresult, ?_⟩
        split at hs
        · next c₁ hc₁ => exact Or.inr ⟨c₁, hc₁, (Option.some.inj hs).symm⟩
        · next hnone => exact Or.inl ⟨hnone, (Option.some.inj hs).symm⟩
      · cases hs
    · cases hs
  · cases hs

/-- A cancelled call is over, and its transport with it. -/
theorem step_cancel (hs : Client.step parse c (.cancel i) = some c') :
    ∃ call, c.calls[i]? = some call ∧ c'.size = c.size ∧ c'.connections = c.connections ∧
      c'.calls = c.calls.set i { call with stage := .raised } ∧
      c'.permits = c.permits + (if call.inside then 1 else 0) ∧
      (call.holds = none → call.waiter = none ∧
        (c' = c.setStage i call .raised ∨ c' = c.leave i call .raised)) := by
  simp only [Client.step] at hs
  split at hs
  · next call hi =>
    split at hs
    · next hstage =>
      obtain rfl := Option.some.inj hs
      exact ⟨call, hi, rfl, rfl, rfl, by rw [Call.inside, hstage]; rfl,
        fun _ => ⟨by rw [Call.waiter, hstage], Or.inl rfl⟩⟩
    · next hstage =>
      obtain rfl := Option.some.inj hs
      exact ⟨call, hi, rfl, rfl, rfl, by rw [Call.inside, hstage]; rfl,
        fun _ => ⟨by rw [Call.waiter, hstage], Or.inr rfl⟩⟩
    · next hstage =>
      obtain rfl := Option.some.inj hs
      exact ⟨call, hi, rfl, rfl, rfl, by rw [Call.inside, hstage]; rfl,
        fun _ => ⟨by rw [Call.waiter, hstage], Or.inr rfl⟩⟩
    · next t w hstage =>
      obtain rfl := Option.some.inj hs
      refine ⟨call, hi, rfl, rfl, rfl, by rw [Call.inside, hstage]; rfl, fun hholds => ?_⟩
      rw [holds_of_awaiting hstage] at hholds
      cases hholds
    · cases hs
    · cases hs
  · cases hs

/-- Where the address has a pool, the call takes a transport of it. -/
theorem enter_eq_take {call : Call α ρ} {ts : List ℕ} {prepared : Bool} (written : Bool)
    (hget : c.connections.get? call.address = some (some ts))
    (hprepared : prepared = true ∨ call.kind = .send) :
    c.enter i call prepared written = c.take i call (prepared && written) := by
  unfold Client.enter
  split
  · next hkind =>
    have hprepared : prepared = true := hprepared.resolve_right fun hsend => by
      rw [hkind] at hsend
      cases hsend
    rw [hprepared]
    rfl
  · rw [hget]

theorem handed_take {call : Call α ρ} {ts : List ℕ} {t : ℕ} {written : Bool}
    (hget : c.connections.get? call.address = some (some ts)) (hlast : ts.getLast? = some t) :
    (c.take i call written).handed = c.handed ++ [(t, decide (t ∈ c.closed))] := by
  simp only [Client.take, hget, hlast]
  cases written <;> rfl

omit [DecidableEq α] in
theorem deliveries_read {t : ℕ} {data : δ} :
    (c.read parse t data).deliveries = c.deliveries ++ [⟨c.given parse data, c.owner t⟩] := by
  simp only [Client.read]
  split
  · rfl
  · split <;> rfl

/-- A call whose request was not written leaves one transport more in the pool. -/
theorem afterReconnect_true {call : Call α ρ} {ts : List ℕ} {t : ℕ}
    (hget : c.connections.get? call.address = some (some ts)) :
    c.afterReconnect i call t true = Client.leave
      { c with
        next := c.next + 1
        connections := (c.connections.set call.address (some (ts ++ [c.next]))).set call.address
          (some (ts ++ [c.next] ++ [t])) } i call (.returned t none) := by
  have happend : ∀ {c : Client α ρ} {us : List ℕ} (u : ℕ),
      c.connections.get? call.address = some (some us) → c.append call.address u =
        some { c with connections := c.connections.set call.address (some (us ++ [u])) } := by
    intro c us u hus
    rw [Client.append, hus]
  unfold Client.afterReconnect
  rw [if_pos rfl, show Client.append { c with next := c.next + 1 } call.address c.next = _ from
    happend c.next hget, Option.bind_some, happend t (Dict.get?_set_self _ _ _)]

end Inversion

/-! ## 3. Every run -/

section Runs

variable {parse : δ → Option ρ} {c c' : Client α ρ}

/-- The semaphore has as much left as the calls inside leave of it. -/
def Admitted (c : Client α ρ) : Prop := c.permits + c.calls.countP Call.inside = c.size

omit [DecidableEq α] in
theorem Admitted.of_set {i : ℕ} {call call' : Call α ρ} (h : Admitted c) (hi : c.calls[i]? = some call)
    (hsize : c'.size = c.size) (hcalls : c'.calls = c.calls.set i call')
    (hpermits : c'.permits + (if call'.inside then 1 else 0) =
      c.permits + (if call.inside then 1 else 0)) : Admitted c' := by
  have hcount := Tasks.countP_set Call.inside hi call'
  unfold Admitted at h ⊢
  rw [hsize, hcalls]
  omega

omit [DecidableEq α] in
/-- A call leaves. -/
theorem Admitted.leave {i : ℕ} {call : Call α ρ} {stage : Stage ρ} (h : Admitted c)
    (hi : c.calls[i]? = some call) (hcall : call.inside = true)
    (hstage : Call.inside { call with stage := stage } = false) : Admitted (c.leave i call stage) := by
  refine h.of_set hi rfl rfl ?_
  rw [hcall, hstage]
  rfl

/-- A call that enters, or is turned away. -/
theorem Admitted.enter {i : ℕ} {call : Call α ρ} (h : Admitted c) (hi : c.calls[i]? = some call)
    (hstage : call.stage = .waiting) (hpermits : 0 < c.permits) (prepared written : Bool) :
    Admitted (c.enter i call prepared written) := by
  have hout : call.inside = false := by rw [Call.inside, hstage]
  have hraised : Admitted (c.setStage i call .raised) := by
    refine h.of_set hi rfl rfl ?_
    rw [hout]
    rfl
  have hin : ∀ {c' : Client α ρ} {stage : Stage ρ}, c'.size = c.size →
      c'.calls = c.calls.set i { call with stage := stage } → c'.permits = c.permits - 1 →
      Call.inside { call with stage := stage } = true → Admitted c' := by
    intro c' stage hsize hcalls hpermits' hinside
    refine h.of_set hi hsize hcalls ?_
    rw [hinside, hout, hpermits']
    exact Nat.sub_add_cancel hpermits
  have htake : ∀ written, Admitted (c.take i call written) := by
    intro written
    unfold Client.take
    split
    · exact hraised
    · exact hraised
    · split
      · exact hraised
      · split
        · exact hin rfl rfl rfl rfl
        · exact hin rfl rfl rfl rfl
  unfold Client.enter
  split
  · split
    · exact htake _
    · exact hraised
  · split
    · exact hin rfl rfl rfl rfl
    · exact hin rfl rfl rfl rfl
    · exact htake _

theorem append_eq_some {a : α} {t : ℕ} (h : c.append a t = some c') :
    ∃ connections, c' = { c with connections := connections } := by
  unfold Client.append at h
  split at h
  · exact ⟨_, (Option.some.inj h).symm⟩
  · cases h
  · exact ⟨_, (Option.some.inj h).symm⟩

/-- **The semaphore**, whatever happens. -/
theorem Admitted.step {ev : Event α δ} (h : Admitted c) (hs : Client.step parse c ev = some c') :
    Admitted c' := by
  cases ev with
  | call kind a =>
    obtain rfl := Option.some.inj hs
    unfold Admitted at h ⊢
    rw [List.countP_append]
    exact h
  | enter i prepared written =>
    obtain ⟨call, hi, hstage, hpermits, rfl⟩ := step_enter hs
    exact h.enter hi hstage hpermits prepared written
  | connected i ok =>
    obtain ⟨call, hi, hstage, rfl⟩ := step_connected hs
    have hin : call.inside = true := by rw [Call.inside, hstage]
    unfold Client.afterConnect
    split
    · have hconnected : Admitted { c.connectClient call.address with
          connections := (c.connectClient call.address).connections.set call.address none } := h
      exact hconnected.leave hi hin rfl
    · exact h.leave hi hin rfl
  | reconnected i ok =>
    obtain ⟨call, t, hi, hstage, rfl⟩ := step_reconnected hs
    have hin : call.inside = true := by rw [Call.inside, hstage]
    have hnext : Admitted { c with next := c.next + 1 } := h
    unfold Client.afterReconnect
    split
    · split
      · next c₁ hc₁ =>
        obtain ⟨c₂, hc₂, hc₁⟩ := Option.bind_eq_some_iff.mp hc₁
        obtain ⟨_, rfl⟩ := append_eq_some hc₂
        obtain ⟨_, rfl⟩ := append_eq_some hc₁
        exact hnext.leave hi hin rfl
      · exact hnext.leave hi hin rfl
    · exact h.leave hi hin rfl
  | received t data =>
    simp only [Client.step] at hs
    split at hs
    · obtain rfl := Option.some.inj hs
      simp only [Client.read]
      split
      · exact h
      · split
        · exact h
        · exact h
    · cases hs
  | resume i =>
    obtain ⟨call, t, w, r, hi, hstage, -, ⟨-, rfl⟩ | ⟨c₁, hc₁, rfl⟩⟩ := step_resume hs
    · exact h.leave hi (by rw [Call.inside, hstage]) rfl
    · obtain ⟨_, rfl⟩ := append_eq_some hc₁
      exact Admitted.leave h hi (by rw [Call.inside, hstage]) rfl
  | cancel i =>
    obtain ⟨call, hi, hsize, -, hcalls, hpermits, -⟩ := step_cancel hs
    refine h.of_set hi hsize hcalls ?_
    rw [hpermits]
    rfl
  | lost t =>
    simp only [Client.step] at hs
    split at hs
    · obtain rfl := Option.some.inj hs
      exact h
    · cases hs

theorem Inv.enter {i : ℕ} {call : Call α ρ} {prepared written : Bool} (h : Inv c)
    (hi : c.calls[i]? = some call) (hstage : call.stage = .waiting)
    (ho : Orderly parse c (.enter i prepared written : Event α δ)) :
    Inv (c.enter i call prepared written) := by
  have hholds : call.holds = none := by rw [Call.holds, hstage]
  have hwaiter : call.waiter = none := by rw [Call.waiter, hstage]
  unfold Client.enter
  split
  · split
    · next hprepared => exact h.take hi hstage (ho call hi (Or.inl hprepared)) written
    · exact h.idle hi hholds hwaiter (Or.inr rfl)
  · next hkind =>
    have hpermits : Inv { c with permits := c.permits - 1 } := ⟨h.stock, h.paired, h.handed, h.delivered⟩
    split
    · next hget =>
      refine hpermits.idle hi hholds hwaiter (Or.inl ⟨rfl, fun ts hts => ?_⟩)
      cases hget.symm.trans hts
    · next hget =>
      refine hpermits.idle hi hholds hwaiter (Or.inl ⟨rfl, fun ts hts => ?_⟩)
      cases hget.symm.trans hts
    · exact h.take hi hstage (ho call hi (Or.inr hkind)) _

/-- An orderly step keeps the invariant. -/
theorem Inv.step {ev : Event α δ} (h : Inv c) (hs : Client.step parse c ev = some c')
    (ho : Orderly parse c ev) : Inv c' := by
  cases ev with
  | call kind a =>
    obtain rfl := Option.some.inj hs
    exact ⟨h.stock.push rfl, h.paired.push rfl trivial, h.handed, h.delivered⟩
  | enter i prepared written =>
    obtain ⟨call, hi, hstage, -, rfl⟩ := step_enter hs
    exact h.enter hi hstage ho
  | connected i ok =>
    obtain ⟨call, hi, hstage, rfl⟩ := step_connected hs
    obtain rfl : ok = false := ho
    exact h.idle_leave hi (by rw [Call.holds, hstage]) (by rw [Call.waiter, hstage])
  | reconnected i ok => exact absurd ho not_false
  | received t data =>
    simp only [Client.step] at hs
    split at hs
    · obtain rfl := Option.some.inj hs
      exact h.read ho
    · cases hs
  | resume i =>
    obtain ⟨call, t, w, r, hi, hstage, hresult, hc'⟩ := step_resume hs
    obtain ⟨c₁, hc₁, hinv⟩ := h.resume hi hstage hresult
    rcases hc' with ⟨hnone, -⟩ | ⟨c₂, hc₂, rfl⟩
    · cases hc₁.symm.trans hnone
    · obtain rfl := Option.some.inj (hc₁.symm.trans hc₂)
      exact hinv
  | cancel i =>
    obtain ⟨call, hi, -, -, -, -, hcancel⟩ := step_cancel hs
    have hholds := ho call hi
    obtain ⟨hwaiter, rfl | rfl⟩ := hcancel hholds
    · exact h.idle hi hholds hwaiter (Or.inr rfl)
    · exact h.idle_leave hi hholds hwaiter
  | lost t =>
    simp only [Client.step] at hs
    split at hs
    · obtain rfl := Option.some.inj hs
      exact ⟨h.stock, h.paired, h.handed, h.delivered⟩
    · cases hs

/-- What remains sound after a step was orderly. -/
theorem orderly_of_sound {ev : Event α δ} (h : Inv c) (hadmitted : Admitted c)
    (hs : Client.step parse c ev = some c') (hsound : Sound c') : Orderly parse c ev := by
  cases ev with
  | call kind a => exact trivial
  | enter i prepared written =>
    intro call hcall hprepared ts hget t hlast
    obtain ⟨call', hi, -, -, rfl⟩ := step_enter hs
    obtain rfl := Option.some.inj (hi.symm.trans hcall)
    rw [enter_eq_take written hget hprepared] at hsound
    have hhanded : (t, decide (t ∈ c.closed)) ∈ (c.take i call' (prepared && written)).handed := by
      rw [handed_take hget hlast]
      exact List.mem_append_right _ (List.mem_singleton_self _)
    exact of_decide_eq_false (hsound.handed _ hhanded)
  | connected i ok =>
    obtain ⟨call, hi, hstage, rfl⟩ := step_connected hs
    cases ok with
    | false => rfl
    | true =>
      exfalso
      have hin : 0 < c.calls.countP Call.inside :=
        List.countP_pos_iff.mpr ⟨call, List.mem_of_getElem? hi, by rw [Call.inside, hstage]⟩
      have hconserved := hsound.conserved call.address none (Dict.get?_set_self _ _ _)
      have hcount : ((c.afterConnect i call true).calls).countP (Call.uses call.address) = 0 :=
        h.stock.countP_uses_eq_zero hi hstage rfl
      have hsize : (c.afterConnect i call true).size = c.size := rfl
      rw [hcount, hsize] at hconserved
      simp only [Option.getD_none, List.length_nil] at hconserved
      unfold Admitted at hadmitted
      omega
  | reconnected i ok =>
    exfalso
    obtain ⟨call, t, hi, hstage, rfl⟩ := step_reconnected hs
    have hholds : call.holds = some t := by rw [Call.holds, hstage]
    obtain ⟨ts, hget⟩ := h.stock.listed call (List.mem_of_getElem? hi) (by rw [hholds]; rfl)
    cases ok with
    | false =>
      have hlength := h.stock.length_eq hi hholds rfl hget hget hsound.conserved
      omega
    | true =>
      rw [afterReconnect_true hget] at hsound
      have hlength := h.stock.length_eq hi hholds rfl hget (Dict.get?_set_self _ _ _) hsound.conserved
      simp only [List.length_append, List.length_singleton] at hlength
      omega
  | received t data =>
    simp only [Client.step] at hs
    split at hs
    · obtain rfl := Option.some.inj hs
      refine h.given_eq_owner_iff.mp (hsound.delivered ⟨c.given parse data, c.owner t⟩ ?_)
      rw [deliveries_read]
      exact List.mem_append_right _ (List.mem_singleton_self _)
    · cases hs
  | resume i => exact trivial
  | cancel i =>
    intro call hcall
    obtain ⟨call', hi, hsize, hconnections, hcalls, -, -⟩ := step_cancel hs
    obtain rfl := Option.some.inj (hi.symm.trans hcall)
    refine Option.eq_none_iff_forall_ne_some.mpr fun t hholds => ?_
    obtain ⟨ts, hget⟩ := h.stock.listed call' (List.mem_of_getElem? hi) (by rw [hholds]; rfl)
    have hconserved := hsound.conserved
    rw [hsize, hconnections, hcalls] at hconserved
    have hlength := h.stock.length_eq hi hholds rfl hget hget hconserved
    omega
  | lost t => exact trivial

theorem inv_foldl_connectClient (addresses : List α) (h : Inv c) (hadmitted : Admitted c)
    (hcalls : c.calls = []) : Inv (addresses.foldl Client.connectClient c) ∧
      Admitted (addresses.foldl Client.connectClient c) := by
  induction addresses generalizing c with
  | nil => exact ⟨h, hadmitted⟩
  | cons a addresses ih =>
    have hstock : Stock c.size (c.connectClient a).connections c.calls (c.next + c.size) := by
      rw [hcalls]
      exact Stock.connect (hcalls ▸ h.stock) a
    exact ih ⟨hstock, h.paired, h.handed, h.delivered⟩ hadmitted hcalls

/-- A client before its first call. -/
theorem inv_init (size : ℕ) (addresses : List α) :
    Inv (Client.init size addresses : Client α ρ) ∧ Admitted (Client.init size addresses : Client α ρ) := by
  refine inv_foldl_connectClient addresses ⟨⟨?_, ?_, ?_, ?_, ?_⟩, ⟨?_, ?_, ?_, ?_⟩, ?_, ?_⟩ ?_ rfl
  · intro a ts hget
    cases hget
  · exact fun call hcall => absurd hcall List.not_mem_nil
  · exact fun call hcall => absurd hcall List.not_mem_nil
  · exact List.nodup_nil
  · exact fun t ht => absurd ht List.not_mem_nil
  · exact List.nodup_nil
  · exact List.nodup_nil
  · exact fun w hw => absurd hw List.not_mem_nil
  · exact fun call hcall => absurd hcall List.not_mem_nil
  · exact fun p hp => absurd hp List.not_mem_nil
  · exact fun d hd => absurd hd List.not_mem_nil
  · exact Nat.add_zero size

/-- **The client is sound in every state of a run exactly if every step is orderly.** -/
theorem sound_iff_orderly (parse : δ → Option ρ) (size : ℕ) (addresses : List α)
    (events : List (Event α δ)) :
    Always (Client.step parse) Sound (Client.init size addresses) events ↔
      Along (Client.step parse) (fun c ev _ => Orderly parse c ev) (Client.init size addresses) events :=
  always_iff_along_of_good (J := fun c => Inv c ∧ Admitted c) (fun _ h => h.1.sound)
    (fun _ _ _ h hs hsound => orderly_of_sound h.1 h.2 hs hsound)
    (fun _ _ _ h hs ho => ⟨h.1.step hs ho, h.2.step hs⟩) (inv_init size addresses)

/-- A write that fails, after which there are three transports for an address of two; a transport that is
lost, and handed out; and two replies in the order of the requests, each of which the other call gets. -/
theorem not_sound :
    ¬ Always (Client.step (some : ℕ → Option ℕ)) Sound (Client.init 2 [0])
        [.call .sendRequest 0, .enter 0 true false, .reconnected 0 true] ∧
    ¬ Always (Client.step (some : ℕ → Option ℕ)) Sound (Client.init 2 [0])
        [.lost 1, .call .sendRequest 0, .enter 0 true true] ∧
    ¬ Always (Client.step (some : ℕ → Option ℕ)) Sound (Client.init 2 [0])
        [.call .sendRequest 0, .call .sendRequest 0, .enter 0 true true, .enter 1 true true,
          .received 1 10, .received 0 11] := by
  refine ⟨fun h => ?_, fun h => ?_, fun h => ?_⟩
  · obtain ⟨c, hsound, hc⟩ := h.exists_last
      (f := fun c => (c.connections.get? 0, c.calls.countP (Call.uses 0), c.size))
      (b := (some (some [0, 2, 1]), 0, 2)) (by decide +kernel)
    rw [Prod.mk.injEq, Prod.mk.injEq] at hc
    obtain ⟨hget, hcount, hsize⟩ := hc
    have hconserved := hsound.conserved 0 _ hget
    rw [hcount, hsize] at hconserved
    exact absurd hconserved (by decide)
  · obtain ⟨c, hsound, hc⟩ := h.exists_last (f := Client.handed) (b := [(1, true)]) (by decide +kernel)
    cases hsound.handed (1, true) (hc ▸ List.mem_singleton_self _)
  · obtain ⟨c, hsound, hc⟩ := h.exists_last (f := Client.deliveries)
      (b := [⟨some 1, some 0⟩, ⟨some 0, none⟩]) (by decide +kernel)
    cases hsound.delivered ⟨some 1, some 0⟩ (hc ▸ List.mem_cons_self)

end Runs

end HttpPool
end Hedra
