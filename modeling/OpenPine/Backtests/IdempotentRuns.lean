import OpenPine.Foundation.Runs
import OpenPine.Backtests.Idempotency

/-! # One run for an idempotency key

As long as no completed result expires, the result in the row of the key stays what it is, and all
requests that return agree with it. The token in the row protects a claim that was taken over
after it had expired.
-/
namespace OpenPine.Backtests.Idempotency
open Runs
variable {H : Type} [DecidableEq H] {r : Request H} {c : Claim H} {now : ℤ} {ok : Bool} {w' : World H} {e : Event H}
  {table : Option (Claim H)} {point : Point}

namespace World
variable (w : World H)

def sweepTime : Event H → Option ℤ
  | .sweep now => some now
  | .step i now true => if (w.requests i).any (·.point = .claim) then some now else none
  | _ => none

def ResultExpires (e : Event H) : Prop :=
  ∃ now c, w.sweepTime e = some now ∧ w.table = some c ∧ c.result ≠ none ∧ c.expired now = true

instance (e : Event H) : Decidable (w.ResultExpires e) :=
  decidable_of_iff (∃ now ∈ w.sweepTime e, ∃ c ∈ w.table, c.result ≠ none ∧ c.expired now = true)
    (by simp [ResultExpires, Option.mem_def])

end World

/-- A step of request `i` leaves completed results alone, and the row is as it was or has its token. -/
structure Evolves (i : ℕ) (table table' : Option (Claim H)) : Prop where
  result : ∀ c, table = some c → c.result ≠ none → table' = some c
  token : ∀ c, table' = some c → table = some c ∨ c.token = i

omit [DecidableEq H] in
theorem Evolves.refl (i : ℕ) (table : Option (Claim H)) : Evolves i table table := ⟨fun _ h _ => h,fun _ h => .inl h⟩

omit [DecidableEq H] in
theorem Evolves.deleted {i : ℕ} (h : ∀ c, table = some c → c.result = none) : Evolves i table none :=
  ⟨fun c hc hresult => absurd (h c hc) hresult,fun c hc => by cases hc⟩

def Point.Fits (table : Option (Claim H)) (i : ℕ) : Point → Prop
  | .claim => ∀ c, table = some c → c.token ≠ i
  | .acquire | .create | .persist | .complete => ∀ c, table = some c → c.token = i → c.result = none
  | .lookup runId | .returned runId => ∃ c, table = some c ∧ c.result = some runId
  | .schedule => ∃ c, table = some c ∧ c.result = some i
  | .release _ | .raised _ => True

omit [DecidableEq H] in
theorem Point.Fits.evolves {i j : ℕ} {table table' : Option (Claim H)} (h : point.Fits table j) (hji : j ≠ i)
    (hevolves : Evolves i table table') : point.Fits table' j := by
  have htoken : ∀ c, table' = some c → c.token = j → table = some c := by
    intro c hc hj
    obtain hold | hi := hevolves.token c hc
    · exact hold
    · exact absurd (hj.symm.trans hi) hji
  cases point with
  | claim | acquire | create | persist | complete => exact fun c hc hj => h c (htoken c hc hj) hj
  | lookup runId | returned runId | schedule =>
    obtain ⟨c,hc,hresult⟩ := h
    exact ⟨c,hevolves.result c hc (by simp [hresult]),hresult⟩
  | release error | raised error => trivial

/-- Where a request goes on without a change of the row. -/
inductive Point.Leads (table : Option (Claim H)) : Point → Point → Prop
  | finds {c : Claim H} {runId : ℕ} (hc : table = some c) (hresult : c.result = some runId) :
    Leads table .claim (.lookup runId)
  | returns {runId : ℕ} : Leads table (.lookup runId) (.returned runId)
  | acquires : Leads table .acquire .create
  | creates : Leads table .create .persist
  | persists : Leads table .persist .complete

namespace World

/-- What a step of request `i` does. -/
inductive Advances (w : World H) (i : ℕ) (hash : H) (now : ℤ) (ok : Bool) : Point → World H → Prop
  | ended {point : Point} (hended : (∃ runId, point = .returned runId) ∨ ∃ error, point = .raised error) :
      Advances w i hash now ok point w
  | passes {point point' : Point} (h : point.Leads w.table point') :
      Advances w i hash now ok point (w.goto i hash point')
  | fails {point point' : Point} (hreturned : ∀ runId, point ≠ .returned runId)
      (hfails : ∃ error, point' = .release error ∨ point' = .raised error) :
    Advances w i hash now ok point (w.goto i hash point')
  | claims (hok : ok = true) (hexpired : ∀ c, w.table = some c → c.expired now = true) :
      Advances w i hash now ok .claim ({ w with table := some ⟨hash,i,none,now⟩ }.goto i hash .acquire)
  | completes {c : Claim H} (hc : completeStorage w.table now hash i i = some c) :
      Advances w i hash now ok .complete ({ w with table := some c }.goto i hash .schedule)
  | releases {c : Claim H} {error : RequestError} (hc : w.table = some c) (hresult : c.result = none) :
      Advances w i hash now ok (.release error) ({ w with table := none }.goto i hash (.raised error))
  | schedules : Advances w i hash now ok .schedule ({ w with scheduled := i :: w.scheduled }.goto i hash (.returned i))

/-- All that one step of a request can do. -/
theorem advances (w : World H) (i : ℕ) (hash : H) (now : ℤ) (ok : Bool) (point : Point) :
    w.Advances i hash now ok point (w.advance i hash now ok point) := by
  cases point with
  | claim =>
    cases ok with
    | false => exact .fails (by simp) ⟨_,.inr rfl⟩
    | true =>
      simp only [advance, if_true]
      obtain ⟨hclaim,hexpired⟩ | ⟨error,hclaim⟩ | ⟨c,runId,hc,hresult,hclaim⟩ := claimStorage_cases w.table now hash i
      · rw [hclaim]
        exact .claims rfl hexpired
      · rw [hclaim]
        exact .fails (by simp) ⟨error,.inr rfl⟩
      · rw [hclaim]
        exact .passes (.finds hc hresult)
  | lookup =>
    cases ok with
    | true => exact .passes .returns
    | false => exact .fails (by simp) ⟨_,.inr rfl⟩
  | acquire =>
    cases ok with
    | true => exact .passes .acquires
    | false => exact .fails (by simp) ⟨_,.inl rfl⟩
  | create =>
    cases ok with
    | true => exact .passes .creates
    | false => exact .fails (by simp) ⟨_,.inl rfl⟩
  | persist =>
    cases ok with
    | true => exact .passes .persists
    | false => exact .fails (by simp) ⟨_,.inr rfl⟩
  | complete =>
    simp only [advance]
    split
    · split
      · rename_i c hcomplete
        exact .completes hcomplete
      · exact .fails (by simp) ⟨_,.inl rfl⟩
    · exact .fails (by simp) ⟨_,.inl rfl⟩
  | release error =>
    simp only [advance]
    split
    · obtain hsame | ⟨hnone,c,hc,-,hresult⟩ := releaseStorage_cases w.table hash i
      · rw [hsame]
        exact .fails (by simp) ⟨error,.inr rfl⟩
      · rw [hnone]
        exact .releases hc hresult
    · exact .fails (by simp) ⟨error,.inr rfl⟩
  | schedule =>
    cases ok with
    | true => exact .schedules
    | false => exact .fails (by simp) ⟨_,.inr rfl⟩
  | returned runId => exact .ended (.inl ⟨runId,rfl⟩)
  | raised error => exact .ended (.inr ⟨error,rfl⟩)

namespace Advances
variable {w w' : World H} {i : ℕ} {hash : H} {now : ℤ} {ok : Bool} {point : Point}
  (h : w.Advances i hash now ok point w')
include h

theorem requests {j : ℕ} (hj : j ≠ i) : w'.requests j = w.requests j := by
  cases h with
  | ended => rfl
  | _ => simp [goto, hj]

theorem token (hc : w'.table = some c) : w.table = some c ∨ c.token = i := by
  cases h with
  | ended | passes | fails | schedules => exact .inl hc
  | claims =>
    obtain rfl := Option.some.inj hc
    exact .inr rfl
  | completes hcomplete =>
    obtain rfl := Option.some.inj hc
    exact .inr (completeStorage_some hcomplete).2.1
  | releases => cases hc

theorem scheduled : w'.scheduled = w.scheduled ∨
    point = .schedule ∧ w'.scheduled = i :: w.scheduled ∧ w'.requests i = some ⟨hash,.returned i⟩ := by
  cases h with
  | schedules => exact .inr ⟨rfl,rfl,by simp [goto]⟩
  | _ => exact .inl rfl

section
variable (hi : w.requests i = some ⟨hash,point⟩) (hexpires : ¬ w.ResultExpires (.step i now ok))
include hi hexpires

theorem result (hc : w.table = some c) (hresult : c.result ≠ none) : w'.table = some c := by
  cases h with
  | ended | passes | fails | schedules => exact hc
  | claims hok hexpired =>
    subst hok
    exact absurd ⟨now,c,by simp [sweepTime, hi],hc,hresult,hexpired c hc⟩ hexpires
  | completes hcomplete =>
    obtain ⟨-,-,-,d,hd,-,hnone⟩ := completeStorage_some hcomplete
    obtain rfl := Option.some.inj (hc.symm.trans hd)
    exact absurd hnone hresult
  | releases hd hnone =>
    obtain rfl := Option.some.inj (hc.symm.trans hd)
    exact absurd hnone hresult

theorem evolves : Evolves i w.table w'.table :=
  ⟨fun _ hc hresult => h.result hi hexpires hc hresult,fun _ hc => h.token hc⟩

end

end Advances

variable (w : World H)

structure Inv : Prop where
  fits : ∀ i r, w.requests i = some r → r.point.Fits w.table i
  claims : ∀ c, w.table = some c → (∃ r, w.requests c.token = some r ∧ r.hash = c.hash) ∧
    ∀ runId, c.result = some runId → runId = c.token
  scheduled : w.scheduled = [] ∨ ∃ i r, w.scheduled = [i] ∧ w.requests i = some r ∧ r.point = .returned i

inductive Happens : Event H → World H → Prop
  | idle (e : Event H) : Happens e w
  | arrive {i : ℕ} {hash : H} (hi : w.requests i = none) : Happens (.arrive i hash) (w.goto i hash .claim)
  | advance {i : ℕ} {r : Request H} {now : ℤ} {ok : Bool} {w' : World H} (hi : w.requests i = some r)
      (h : w.Advances i r.hash now ok r.point w') : Happens (.step i now ok) w'
  | expire {now : ℤ} {c : Claim H} (hc : w.table = some c) (hexpired : c.expired now = true) :
      Happens (.sweep now) { w with table := none }

/-- All that one event can do. -/
theorem happens_step (e : Event H) : w.Happens e (w.step e) := by
  cases e with
  | arrive =>
    simp only [step]
    split
    · rename_i hi
      exact .arrive hi
    · exact .idle _
  | step i now ok =>
    simp only [step]
    cases hi : w.requests i with
    | none => exact .idle _
    | some r => exact .advance hi (w.advances i r.hash now ok r.point)
  | sweep now =>
    simp only [step]
    obtain hsame | ⟨hnone,c,hc,hexpired⟩ := sweep_cases now w.table
    · rw [hsame]
      exact .idle _
    · rw [hnone]
      exact .expire hc hexpired

variable {w}

variable {i : ℕ} {hash : H} {point : Point}

omit [DecidableEq H] in
theorem goto_requests_of_some {k : ℕ} (hi : w.requests i = none) (hr : w.requests k = some r) :
    (w.goto i hash point).requests k = some r := by
  have hne : k ≠ i := by
    rintro rfl
    cases hi.symm.trans hr
  simpa [goto, hne] using hr

omit [DecidableEq H] in
@[simp] theorem goto_requests_self (i : ℕ) (hash : H) (point : Point) :
    (w.goto i hash point).requests i = some ⟨hash,point⟩ := by
  simp [goto]

omit [DecidableEq H] in
theorem inv_start : (start : World H).Inv := by
  refine ⟨fun i r h => ?_,fun c h => ?_,.inl rfl⟩
  · cases h
  · cases h

omit [DecidableEq H] in
theorem Inv.move {point' : Point} (h : w.Inv) (hi : w.requests i = some ⟨hash,point⟩)
    (hreturned : ∀ runId, point ≠ .returned runId) (hevolves : Evolves i w.table table)
    (hclaims : ∀ c, table = some c → w.table = some c ∨ c.hash = hash ∧ c.token = i ∧
      ∀ runId, c.result = some runId → runId = i)
    (hfits : point'.Fits table i) : ({ w with table := table }.goto i hash point').Inv := by
  refine ⟨fun j r hj => ?_,fun c hc => ?_,?_⟩
  · by_cases hji : j = i
    · subst hji
      obtain rfl : ⟨hash,point'⟩ = r := by simpa [goto] using hj
      exact hfits
    · exact (h.fits j r (by simpa [goto, hji] using hj)).evolves hji hevolves
  · obtain hold | ⟨hhash,htoken,hresult⟩ := hclaims c hc
    · obtain ⟨⟨r,hr,hhash⟩,hresult⟩ := h.claims c hold
      refine ⟨?_,hresult⟩
      by_cases hci : c.token = i
      · refine ⟨⟨hash,point'⟩,by simp [goto, hci],?_⟩
        rw [hci, hi] at hr
        obtain rfl := Option.some.inj hr
        exact hhash
      · exact ⟨r,by simpa [goto, hci] using hr,hhash⟩
    · exact ⟨⟨⟨hash,point'⟩,by simp [goto, htoken],hhash.symm⟩,fun runId hrun => (hresult runId hrun).trans htoken.symm⟩
  · obtain hnone | ⟨k,r,hk,hr,hpoint⟩ := h.scheduled
    · exact .inl hnone
    · have hki : k ≠ i := by
        rintro rfl
        rw [hi] at hr
        obtain rfl := Option.some.inj hr
        exact hreturned k hpoint
      exact .inr ⟨k,r,hk,by simpa [goto, hki] using hr,hpoint⟩

omit [DecidableEq H] in
theorem Inv.goto {point' : Point} (h : w.Inv) (hi : w.requests i = some ⟨hash,point⟩)
    (hreturned : ∀ runId, point ≠ .returned runId) (hfits : point'.Fits w.table i) : (w.goto i hash point').Inv :=
  h.move hi hreturned (.refl i w.table) (fun _ hc => .inl hc) hfits

theorem Inv.advance (h : w.Inv) (hi : w.requests i = some ⟨hash,point⟩) (hexpires : ¬ w.ResultExpires (.step i now ok))
    (hw' : w.Advances i hash now ok point w') : w'.Inv := by
  have hfits := h.fits i _ hi
  have hevolves := hw'.evolves hi hexpires
  cases hw' with
  | ended => exact h
  | passes hleads =>
    cases hleads with
    | finds hc hresult => exact h.goto hi (by simp) ⟨_,hc,hresult⟩
    | returns | acquires | creates | persists => exact h.goto hi (by simp) hfits
  | fails hreturned hfails =>
    obtain ⟨error,rfl | rfl⟩ := hfails
    · exact h.goto hi hreturned trivial
    · exact h.goto hi hreturned trivial
  | claims =>
    refine h.move hi (by simp) hevolves (fun c hc => ?_) fun c hc _ => ?_
    · obtain rfl := Option.some.inj hc
      exact .inr ⟨rfl,rfl,fun _ hrun => by cases hrun⟩
    · obtain rfl := Option.some.inj hc
      rfl
  | @completes c hcomplete =>
    obtain ⟨hhash,htoken,hresult,-⟩ := completeStorage_some hcomplete
    refine h.move hi (by simp) hevolves (fun d hd => ?_) ⟨c,rfl,hresult⟩
    obtain rfl := Option.some.inj hd
    refine .inr ⟨hhash,htoken,fun runId hrun => ?_⟩
    exact Option.some.inj (hrun.symm.trans hresult)
  | releases hc =>
    refine h.move hi (by simp) hevolves (fun c hc => ?_) trivial
    cases hc
  | schedules =>
    obtain ⟨c,hc,hresult⟩ := hfits
    have hw : (w.goto i hash (.returned i)).Inv := h.goto hi (by simp) ⟨c,hc,hresult⟩
    refine ⟨hw.fits,hw.claims,.inr ⟨i,⟨hash,.returned i⟩,?_,by simp,rfl⟩⟩
    obtain hnone | ⟨k,r,-,hr,hpoint⟩ := h.scheduled
    · simp [World.goto, hnone]
    · -- the run that was scheduled before is the result, so it is this one, which has not returned yet
      obtain ⟨c',hc',hresult'⟩ : (Point.returned k).Fits w.table k := hpoint ▸ h.fits k r hr
      obtain rfl := Option.some.inj (hc.symm.trans hc')
      obtain rfl := Option.some.inj (hresult.symm.trans hresult')
      obtain rfl := Option.some.inj (hi.symm.trans hr)
      cases hpoint

omit [DecidableEq H] in
theorem Inv.arrive (h : w.Inv) (hi : w.requests i = none) : (w.goto i hash .claim).Inv := by
  refine ⟨fun j r hj => ?_,fun c hc => ?_,?_⟩
  · by_cases hji : j = i
    · subst hji
      obtain rfl : ⟨hash,.claim⟩ = r := by simpa using hj
      intro c hc htoken
      obtain ⟨⟨r,hr,-⟩,-⟩ := h.claims c hc
      cases hi.symm.trans (htoken ▸ hr)
    · exact h.fits j r (by simpa [World.goto, hji] using hj)
  · obtain ⟨⟨r,hr,hhash⟩,hresult⟩ := h.claims c hc
    exact ⟨⟨r,goto_requests_of_some hi hr,hhash⟩,hresult⟩
  · obtain hnone | ⟨k,r,hk,hr,hpoint⟩ := h.scheduled
    · exact .inl hnone
    · exact .inr ⟨k,r,hk,goto_requests_of_some hi hr,hpoint⟩

omit [DecidableEq H] in
theorem Inv.expire (h : w.Inv) (hnone : ∀ c, w.table = some c → c.result = none) : { w with table := none }.Inv := by
  refine ⟨fun j r hj => ?_,fun c hc => ?_,h.scheduled⟩
  · exact (h.fits j r hj).evolves (Nat.ne_of_lt (Nat.lt_succ_self j)) (.deleted hnone)
  · cases hc

/-- Every event keeps the invariant until a completed result expires. -/
theorem Inv.step (h : w.Inv) (hexpires : ¬ w.ResultExpires e) : (w.step e).Inv := by
  have hstep := w.happens_step e
  generalize w.step e = w' at hstep ⊢
  cases hstep with
  | idle => exact h
  | arrive hi => exact h.arrive hi
  | advance hi hw' => exact h.advance hi hexpires hw'
  | expire hc hexpired =>
    refine h.expire fun d hd => ?_
    obtain rfl := Option.some.inj (hc.symm.trans hd)
    by_contra hresult
    exact hexpires ⟨_,_,rfl,hc,hresult,hexpired⟩

/-! ### Claims that are taken over -/

def Logged (w : World H) : Prop := ∀ i ∈ w.scheduled, ∃ r, w.requests i = some r ∧ r.point = .returned i

theorem Logged.advance {w w' : World H} (h : w.Logged) (hi : w.requests i = some r)
    (hw' : w.Advances i r.hash now ok r.point w') : w'.Logged := by
  intro k hk
  by_cases hki : k = i
  · subst hki
    obtain hsame | ⟨-,-,hreturned⟩ := hw'.scheduled
    · obtain ⟨r',hr',hpoint⟩ := h k (hsame ▸ hk)
      obtain rfl := Option.some.inj (hi.symm.trans hr')
      rw [hpoint] at hw'
      cases hw' with
      | ended => exact ⟨r,hi,hpoint⟩
      | passes hleads => cases hleads
      | fails hreturned => exact absurd rfl (hreturned k)
    · exact ⟨_,hreturned,rfl⟩
  · rw [hw'.requests hki]
    obtain hsame | ⟨-,hscheduled,-⟩ := hw'.scheduled
    · exact h k (hsame ▸ hk)
    · rw [hscheduled] at hk
      exact h k ((List.mem_cons.mp hk).resolve_left hki)

/-- Every run that is scheduled is that of a request which has returned. -/
theorem Logged.step {w : World H} (h : w.Logged) (e : Event H) : (w.step e).Logged := by
  have hstep := w.happens_step e
  generalize w.step e = w' at hstep ⊢
  cases hstep with
  | idle | expire => exact h
  | arrive hi =>
    intro k hk
    obtain ⟨r,hr,hpoint⟩ := h k hk
    exact ⟨r,goto_requests_of_some hi hr,hpoint⟩
  | advance hi hw' => exact h.advance hi hw'

end World

def Point.claiming : Point → Bool
  | .acquire | .create | .persist | .complete => true
  | _ => false

namespace World

def Superseded (w : World H) (i : ℕ) : Prop :=
  ∃ r, w.requests i = some r ∧ r.point.claiming = true ∧ ∀ c, w.table = some c → c.token ≠ i

def Lost (w : World H) (i : ℕ) : Prop :=
  i ∉ w.scheduled ∧ ∃ r, w.requests i = some r ∧
    (r.point.claiming = true ∧ (∀ c, w.table = some c → c.token ≠ i) ∨ ∃ error, r.point = .release error ∨
      r.point = .raised error)

variable {w : World H} {i : ℕ}

omit [DecidableEq H] in
theorem Superseded.lost (h : w.Superseded i) (hlogged : w.Logged) : w.Lost i := by
  obtain ⟨r,hr,hclaiming,htoken⟩ := h
  refine ⟨fun hi => ?_,r,hr,.inl ⟨hclaiming,htoken⟩⟩
  obtain ⟨r',hr',hpoint⟩ := hlogged i hi
  obtain rfl := Option.some.inj (hr.symm.trans hr')
  rw [hpoint] at hclaiming
  cases hclaiming

theorem Lost.advance (h : w.Lost i) (hr : w.requests i = some r) (hw' : w.Advances i r.hash now ok r.point w') :
    w'.Lost i := by
  obtain ⟨hscheduled,r',hr',hpoint⟩ := h
  obtain rfl := Option.some.inj (hr.symm.trans hr')
  have hnext : ∀ point : Point, point.claiming = true → r.point.claiming = true → (w.goto i r.hash point).Lost i := by
    intro point hnext hclaiming
    refine ⟨hscheduled,_,w.goto_requests_self i r.hash point,.inl ⟨hnext,?_⟩⟩
    obtain ⟨-,htoken⟩ | ⟨error,herror | herror⟩ := hpoint
    · exact htoken
    · rw [herror] at hclaiming
      cases hclaiming
    · rw [herror] at hclaiming
      cases hclaiming
  generalize hp : r.point = point at hw' hpoint hnext
  cases hw' with
  | ended => exact ⟨hscheduled,r,hr,hp ▸ hpoint⟩
  | passes hleads =>
    cases hleads with
    | finds | returns => simp [Point.claiming] at hpoint
    | acquires | creates | persists => exact hnext _ rfl rfl
  | fails _ hfails => exact ⟨hscheduled,_,w.goto_requests_self i r.hash _,.inr hfails⟩
  | claims | schedules => simp [Point.claiming] at hpoint
  | completes hcomplete =>
    obtain ⟨-,-,-,c,hc,htoken,-⟩ := completeStorage_some hcomplete
    obtain ⟨-,hother⟩ | ⟨error,herror | herror⟩ := hpoint
    · exact absurd htoken (hother c hc)
    · cases herror
    · cases herror
  | releases => exact ⟨hscheduled,_,goto_requests_self i r.hash _,.inr ⟨_,.inr rfl⟩⟩

theorem Lost.advance_other {j : ℕ} {hash : H} (h : w.Lost i) (hij : i ≠ j) (hw' : w.Advances j hash now ok point w') :
    w'.Lost i := by
  obtain ⟨hscheduled,r,hr,hpoint⟩ := h
  refine ⟨?_,r,by rw [hw'.requests hij, hr],hpoint.imp_left fun hclaim => ⟨hclaim.1,fun c hc => ?_⟩⟩
  · obtain hsame | ⟨-,hcons,-⟩ := hw'.scheduled
    · rwa [hsame]
    · rw [hcons]
      simp [hij, hscheduled]
  · obtain hold | hnew := hw'.token hc
    · exact hclaim.2 c hold
    · exact fun htoken => hij (htoken.symm.trans hnew)

/-- A request that has lost its claim never schedules its run. -/
theorem Lost.step (h : w.Lost i) (e : Event H) : (w.step e).Lost i := by
  have hstep := w.happens_step e
  generalize w.step e = w' at hstep ⊢
  cases hstep with
  | idle => exact h
  | arrive hj =>
    obtain ⟨hscheduled,r,hr,hpoint⟩ := h
    exact ⟨hscheduled,r,goto_requests_of_some hj hr,hpoint⟩
  | @advance j r now ok _ hj hw' =>
    by_cases hij : i = j
    · subst hij
      exact h.advance hj hw'
    · exact h.advance_other hij hw'
  | expire =>
    obtain ⟨hscheduled,r,hr,hpoint⟩ := h
    exact ⟨hscheduled,r,hr,hpoint.imp_left fun hclaim => ⟨hclaim.1,fun c hc => by cases hc⟩⟩

theorem result_step (hexpires : ¬ w.ResultExpires e) (hc : w.table = some c) (hresult : c.result ≠ none) :
    (w.step e).table = some c := by
  have hstep := w.happens_step e
  generalize w.step e = w' at hstep ⊢
  cases hstep with
  | idle | arrive => exact hc
  | advance hi hw' => exact hw'.result hi hexpires hc hresult
  | expire hd hexpired =>
    obtain rfl := Option.some.inj (hc.symm.trans hd)
    exact absurd ⟨_,c,rfl,hc,hresult,hexpired⟩ hexpires

theorem scheduled_step (hi : i ∉ w.scheduled) (hi' : i ∈ (w.step e).scheduled) :
    ∃ r, w.requests i = some r ∧ r.point = .schedule := by
  have hstep := w.happens_step e
  generalize w.step e = w' at hstep hi'
  cases hstep with
  | idle | arrive | expire => exact absurd hi' hi
  | @advance j r now ok _ hj hw' =>
    obtain hsame | ⟨hpoint,hcons,-⟩ := hw'.scheduled
    · exact absurd (hsame ▸ hi') hi
    · rw [hcons] at hi'
      obtain rfl := (List.mem_cons.mp hi').resolve_right hi
      exact ⟨r,hj,hpoint⟩

omit [DecidableEq H] in
theorem Inv.returned (h : w.Inv) {runId : ℕ} (hr : w.requests i = some r) (hpoint : r.point = .returned runId) :
    ∃ c, w.table = some c ∧ c.result = some runId := by
  have hfits := h.fits i r hr
  rw [hpoint] at hfits
  exact hfits

omit [DecidableEq H] in
theorem Inv.result_of_scheduled (h : w.Inv) {runId : ℕ} (hrun : runId ∈ w.scheduled) :
    ∃ c, w.table = some c ∧ c.result = some runId := by
  obtain hnone | ⟨k,r,hk,hr,hpoint⟩ := h.scheduled
  · simp [hnone] at hrun
  · obtain rfl : runId = k := by simpa [hk] using hrun
    exact h.returned hr hpoint

omit [DecidableEq H] in
theorem Inv.hash_of_schedule (h : w.Inv) (hr : w.requests i = some r) (hpoint : r.point = .schedule)
    (hc : w.table = some c) : r.hash = c.hash := by
  obtain ⟨c',hc',hresult⟩ : Point.schedule.Fits w.table i := hpoint ▸ h.fits i r hr
  obtain rfl := Option.some.inj (hc.symm.trans hc')
  obtain ⟨⟨r',hr',hhash⟩,htoken⟩ := h.claims c hc
  obtain rfl := htoken i hresult
  obtain rfl := Option.some.inj (hr.symm.trans hr')
  exact hhash

/-- Requests for one key in any interleaving and with any clocks. As long as no completed result
expires at most one run is scheduled, all requests that return return one run, which is the one
that is scheduled, and no request schedules its run while the row of the key carries
another hash. A request whose claim is not in the row any more never schedules its run. -/
theorem idempotent_requests (events : List (Event H)) :
    let w := fun n => run step start (events.take n)
    (EachStep step (fun w e => ¬ w.ResultExpires e) start events → (∀ n, (w n).scheduled.length ≤ 1) ∧
      (∀ n i r runId, (w n).requests i = some r → r.point = .returned runId →
        (∀ m runId', runId' ∈ (w m).scheduled → runId = runId') ∧
        ∀ m j r' runId', (w m).requests j = some r' → r'.point = .returned runId' → runId = runId') ∧
      (∀ n i r c, (w n).requests i = some r → (w n).table = some c → r.hash ≠ c.hash →
        i ∉ (w n).scheduled → i ∉ (w (n + 1)).scheduled)) ∧
    ∀ n m i, n ≤ m → (w n).Superseded i → i ∉ (w m).scheduled := by
  intro w
  refine ⟨fun h => ?_,fun n m i hnm hsuperseded => ?_⟩
  · have hinv : ∀ n, (w n).Inv :=
      always_iff_take.mp (h.always (I := Inv) (P := Inv) (fun _ _ hw he => hw.step he) (fun _ hw => hw) inv_start)
    have hstays : ∀ n m, n ≤ m → ∀ c, (w n).table = some c → c.result ≠ none → (w m).table = some c := by
      refine take_rel_iff_eachStep (R := fun v v' : World H => ∀ c, v.table = some c → c.result ≠ none →
        v'.table = some c)
        (fun _ _ hc _ => hc) (fun _ _ _ h₁ h₂ c hc hresult => h₂ c (h₁ c hc hresult) hresult) |>.mpr ?_
      exact h.mono (I := fun _ => True) (fun _ _ _ _ => trivial) (fun _ _ _ he _ => result_step he) trivial
    have hsame : ∀ n m runId runId', (∃ c, (w n).table = some c ∧ c.result = some runId) →
        (∃ c, (w m).table = some c ∧ c.result = some runId') → runId = runId' := by
      rintro n m runId runId' ⟨c,hc,hresult⟩ ⟨c',hc',hresult'⟩
      have hcc : c = c' := by
        obtain hnm | hmn := Nat.le_total n m
        · exact Option.some.inj ((hstays n m hnm c hc (by simp [hresult])).symm.trans hc')
        · exact Option.some.inj (hc.symm.trans (hstays m n hmn c' hc' (by simp [hresult'])))
      subst hcc
      exact Option.some.inj (hresult.symm.trans hresult')
    refine ⟨fun n => ?_,fun n i r runId hr hpoint => ⟨fun m runId' hrun => ?_,fun m j r' runId' hr' hpoint' => ?_⟩,
      fun n i r c hr hc hhash hi hi' => ?_⟩
    · obtain hnone | ⟨k,r,hk,-⟩ := (hinv n).scheduled
      · simp [hnone]
      · simp [hk]
    · exact hsame n m runId runId' ((hinv n).returned hr hpoint) ((hinv m).result_of_scheduled hrun)
    · exact hsame n m runId runId' ((hinv n).returned hr hpoint) ((hinv m).returned hr' hpoint')
    · have hsucc : w (n + 1) = _ := run_take_succ step start events n
      cases hop : events[n]? with
      | none =>
        rw [hop] at hsucc
        rw [hsucc] at hi'
        exact hi hi'
      | some =>
        rw [hop] at hsucc
        rw [hsucc] at hi'
        obtain ⟨r',hr',hpoint⟩ := scheduled_step hi hi'
        obtain rfl := Option.some.inj (hr.symm.trans hr')
        exact hhash ((hinv n).hash_of_schedule hr hpoint hc)
  · have hlogged : (w n).Logged := run_invariant (P := Logged) (fun _ e hw => hw.step e) (fun _ hi => by cases hi) _
    have hlost : (w m).Lost i := by
      have hrun : w m = run step (w n) ((events.take m).drop n) := run_take_of_le step start events hnm
      rw [hrun]
      exact run_invariant (P := fun v : World H => v.Lost i) (fun _ e hw => hw.step e) (hsuperseded.lost hlogged) _
    exact hlost.1

/-- Two requests, of which the second comes when the run of the first is scheduled. -/
def twoRequests : List (Event String) :=
  [.arrive 0 "h", .arrive 1 "h"] ++ List.replicate 6 (.step 0 0 true) ++ List.replicate 2 (.step 1 0 true)

theorem second_request_joins : (run step start twoRequests).scheduled = [0] ∧
    ((run step start twoRequests).requests 1).map (·.point) = some (.returned 0) ∧
    ∀ n, (run step start (twoRequests.take n)).scheduled.length ≤ 1 :=
  ⟨rfl,rfl,((idempotent_requests twoRequests).1 (by decide +kernel)).1⟩

end World
end OpenPine.Backtests.Idempotency
