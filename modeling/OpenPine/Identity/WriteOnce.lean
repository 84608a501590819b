import OpenPine.Foundation.Runs
import OpenPine.Identity.RunIdentity

/-! # The identity of a run is written once

Whatever the schedule, the file of a run appears with a complete payload and never changes.
A call that ends has found it or made it, and returns exactly if the payloads are equal for
Python. Python takes `True` for `1`, so payloads that are equal for it may be different JSON.
-/
namespace OpenPine.Identity
open Runs World Option
variable {C : Type} {codec : Codec C} {w w' : World C} {i j k : ℕ} {payload p : Json} {point : Point} {c : Call}

theorem Json.alike_refl {compare : Atom → Atom → Bool} (h : ∀ a, compare a a = true) (x : Json) :
    x.alike compare x = true := by
  induction x with
  | atom => simp [alike, h]
  | array n f ih | object keys f ih => simp [alike, ih]

theorem Json.equal_refl (x : Json) : x.equal x = true := by
  apply Json.alike_refl
  intro a
  cases a <;> simp [Atom.equal]

theorem Json.alike_mono {r s : Atom → Atom → Bool} (h : ∀ a b, r a b = true → s a b = true) {x y : Json}
    (hxy : x.alike r y = true) : x.alike s y = true := by
  induction x generalizing y with
  | atom => cases y <;> simp_all [alike]
  | array _ _ ih =>
    cases y with
    | array =>
      simp only [alike, Bool.and_eq_true, List.all_eq_true] at hxy ⊢
      exact ⟨hxy.1,fun i hi => ih i (hxy.2 i hi)⟩
    | _ => simp [alike] at hxy
  | object _ _ ih =>
    cases y with
    | object =>
      simp only [alike, Bool.and_eq_true, List.all_eq_true] at hxy ⊢
      exact ⟨hxy.1,fun k hk => ih k (hxy.2 k hk)⟩
    | _ => simp [alike] at hxy

theorem Json.equal_of_same {x y : Json} (h : x.same y = true) : x.equal y = true := by
  apply Json.alike_mono _ h
  intro a b hab
  obtain rfl : a = b := by simpa [Atom.same] using hab
  cases a <;> simp [Atom.equal]

theorem requireExistingMatch_dumps : requireExistingMatch codec (codec.dumps p) payload = .ok () ↔
    p.equal payload = true := by
  obtain ⟨q,hq,hequal⟩ := codec.faithful p
  simp only [requireExistingMatch, hq, hequal]
  split <;> simp_all

/-! ### What a call knows at each step -/

def Fits (codec : Codec C) (w : World C) (i : ℕ) (payload : Json) : Point → Prop
  | .stat | .mkdir | .openExisting | .create => w.published ≠ some i
  | .write written => w.published ≠ some i ∧ w.content i = (codec.dumps payload).take written
  | .link => w.published ≠ some i ∧ w.content i = codec.dumps payload
  | .openLinked => w.published ≠ some i ∧ w.published.isSome
  | .load inode | .loadLinked inode => w.published ≠ some i ∧ w.published = some inode
  | .unlink result | .ended result => ∃ p, w.identity = some p ∧ (result = .ok () ↔ p.equal payload = true)

structure Inv (codec : Codec C) (w : World C) : Prop where
  fits : ∀ i c, w.calls i = some c → Fits codec w i c.payload c.point
  complete : ∀ i, w.published = some i → ∃ c, w.calls i = some c ∧ w.content i = codec.dumps c.payload

/-- A step of call `i` publishes nothing but its own file, and changes no published one. -/
structure Extends (i : ℕ) (w w' : World C) : Prop where
  calls : ∀ j, j ≠ i → w'.calls j = w.calls j
  payload : ∀ c, w.calls i = some c → ∃ c', w'.calls i = some c' ∧ c'.payload = c.payload
  content : ∀ j, j ≠ i ∨ w.published = some i → w'.content j = w.content j
  published : w'.published = w.published ∨ w.published = none ∧ w'.published = some i

section
variable (h : Extends i w w')
include h

theorem Extends.published_eq (hk : w.published = some k) : w'.published = some k := by
  obtain hsame | ⟨hnone,-⟩ := h.published
  · rw [hsame, hk]
  · simp [hnone] at hk

theorem Extends.identity_eq (hp : w.identity = some p) : w'.identity = some p := by
  simp only [identity, bind_eq_some_iff, map_eq_some_iff] at hp ⊢
  obtain ⟨k,hk,c,hc,rfl⟩ := hp
  by_cases hki : k = i
  · subst hki
    obtain ⟨c',hc',hpayload⟩ := h.payload c hc
    exact ⟨k,h.published_eq hk,c',hc',hpayload⟩
  · exact ⟨k,h.published_eq hk,c,by rw [h.calls k hki, hc],rfl⟩

theorem Extends.ne_published (hj : j ≠ i) (hne : w.published ≠ some j) : w'.published ≠ some j := by
  obtain hsame | ⟨-,hi⟩ := h.published
  · rw [hsame]
    exact hne
  · rw [hi]
    simpa using Ne.symm hj

theorem Extends.fits (hj : j ≠ i) (hfits : Fits codec w j payload point) : Fits codec w' j payload point := by
  cases point with
  | stat | mkdir | openExisting | create => exact h.ne_published hj hfits
  | write | link => exact ⟨h.ne_published hj hfits.1,by rw [h.content j (.inl hj), hfits.2]⟩
  | openLinked =>
    obtain ⟨k,hk⟩ := isSome_iff_exists.mp hfits.2
    exact ⟨h.ne_published hj hfits.1,by simp [h.published_eq hk]⟩
  | load inode | loadLinked inode => exact ⟨h.ne_published hj hfits.1,h.published_eq hfits.2⟩
  | unlink result | ended result =>
    obtain ⟨p,hp,hresult⟩ := hfits
    exact ⟨p,h.identity_eq hp,hresult⟩

end

theorem Inv.step (h : Inv codec w) (hext : Extends i w w') (hcall : w'.calls i = some ⟨payload,point⟩)
    (hfits : Fits codec w' i payload point)
    (hown : w'.published = some i → w'.content i = codec.dumps payload) : Inv codec w' := by
  constructor
  · intro j c hc
    by_cases hj : j = i
    · subst hj
      rw [hcall] at hc
      cases hc
      exact hfits
    · rw [hext.calls j hj] at hc
      exact hext.fits hj (h.fits j c hc)
  · intro k hk
    by_cases hki : k = i
    · subst hki
      exact ⟨_,hcall,hown hk⟩
    · have hpublished : w.published = some k := by
        obtain hsame | ⟨-,hi⟩ := hext.published
        · rw [← hsame, hk]
        · rw [hk] at hi
          exact absurd (Option.some.inj hi) hki
      obtain ⟨c,hc,hcontent⟩ := h.complete k hpublished
      exact ⟨c,by rw [hext.calls k hki, hc],by rw [hext.content k (.inl hki), hcontent]⟩

section Goto
variable {w₁ : World C}

@[simp] theorem World.goto_calls : (w.goto i payload point).calls i = some ⟨payload,point⟩ := by simp [goto]

@[simp] theorem World.goto_published : (w.goto i payload point).published = w.published := rfl

@[simp] theorem World.goto_content : (w.goto i payload point).content = w.content := rfl

theorem extends_goto (hpayload : ∀ c, w.calls i = some c → c.payload = payload) (hcalls : w₁.calls = w.calls)
    (hcontent : ∀ j, j ≠ i ∨ w.published = some i → w₁.content j = w.content j)
    (hpublished : w₁.published = w.published ∨ w.published = none ∧ w₁.published = some i) :
    Extends i w (w₁.goto i payload point) := by
  refine ⟨fun j hj => ?_,fun c hc => ⟨_,goto_calls,(hpayload c hc).symm⟩,hcontent,hpublished⟩
  simp [goto, hcalls, hj]

theorem payload_eq (hcall : w.calls i = some ⟨payload,point⟩) : ∀ c, w.calls i = some c → c.payload = payload := by
  intro c hc
  obtain rfl := Option.some.inj (hcall.symm.trans hc)
  rfl

theorem extends_goto_same (hpayload : ∀ c, w.calls i = some c → c.payload = payload) (hcalls : w₁.calls = w.calls)
    (hcontent : w₁.content = w.content) (hpublished : w₁.published = w.published) :
    Extends i w (w₁.goto i payload point) :=
  extends_goto hpayload hcalls (fun j _ => congrFun hcontent j) (.inl hpublished)

end Goto

theorem Inv.identity (h : Inv codec w) (hk : w.published = some k) :
    ∃ p, w.identity = some p ∧ w.content k = codec.dumps p := by
  obtain ⟨c,hc,hcontent⟩ := h.complete k hk
  exact ⟨c.payload,by simp [World.identity, hk, hc],hcontent⟩

theorem Inv.compared (h : Inv codec w) (hk : w.published = some k) :
    ∃ p, w.identity = some p ∧
      (requireExistingMatch codec (w.content k) payload = .ok () ↔ p.equal payload = true) := by
  obtain ⟨p,hp,hcontent⟩ := h.identity hk
  exact ⟨p,hp,by rw [hcontent, requireExistingMatch_dumps]⟩

section
variable (h : Inv codec w) (hcall : w.calls i = some ⟨payload,point⟩)
include h hcall

section
variable (hne : w.published ≠ some i)
include hne

theorem Inv.next {w₁ : World C} {point' : Point} (hcalls : w₁.calls = w.calls)
    (hcontent : ∀ j, j ≠ i → w₁.content j = w.content j) (hpublished : w₁.published = w.published)
    (hfits : Fits codec (w₁.goto i payload point') i payload point') :
    Extends i w (w₁.goto i payload point') ∧ Inv codec (w₁.goto i payload point') := by
  have hext : Extends i w (w₁.goto i payload point') :=
    extends_goto (payload_eq hcall) hcalls (fun j hj => hcontent j (hj.resolve_right hne)) (.inl hpublished)
  refine ⟨hext,h.step hext goto_calls hfits fun hi => ?_⟩
  rw [goto_published, hpublished] at hi
  exact absurd hi hne

theorem Inv.look {point' : Point} (hfits : Fits codec (w.goto i payload point') i payload point') :
    Extends i w (w.goto i payload point') ∧ Inv codec (w.goto i payload point') :=
  h.next hcall hne rfl (fun _ _ => rfl) rfl hfits

theorem Inv.compare {inode : ℕ} {point' : Point} (hinode : w.published = some inode)
    (hpoint : point' = .unlink (requireExistingMatch codec (w.content inode) payload) ∨
      point' = .ended (requireExistingMatch codec (w.content inode) payload)) :
    Extends i w (w.goto i payload point') ∧ Inv codec (w.goto i payload point') := by
  have hext : Extends i w (w.goto i payload point') := extends_goto_same (payload_eq hcall) rfl rfl rfl
  obtain ⟨p,hp,hresult⟩ := h.compared hinode
  refine h.look hcall hne ?_
  obtain rfl | rfl := hpoint
  · exact ⟨p,hext.identity_eq hp,hresult⟩
  · exact ⟨p,hext.identity_eq hp,hresult⟩

end

/-- A step of one writer keeps the invariant. -/
theorem Inv.advance : Extends i w (w.advance codec i payload point) ∧ Inv codec (w.advance codec i payload point) := by
  have hfits := h.fits i _ hcall
  cases point with
  | stat =>
    refine h.look hcall hfits ?_
    split <;> exact hfits
  | mkdir => exact h.next hcall hfits rfl (fun _ _ => rfl) rfl hfits
  | openExisting =>
    simp only [advance]
    cases hpublished : w.published with
    | none => exact h.look hcall hfits hfits
    | some => exact h.look hcall hfits ⟨hfits,hpublished⟩
  | load => exact h.compare hcall hfits.1 hfits.2 (.inr rfl)
  | create =>
    refine h.next hcall hfits rfl (fun j hj => by simp [hj]) rfl ⟨hfits,?_⟩
    simp
  | write written =>
    simp only [advance]
    cases hpiece : (codec.dumps payload)[written]? with
    | none =>
      refine h.look hcall hfits.1 ⟨hfits.1,?_⟩
      have hle : (codec.dumps payload).length ≤ written := by simpa using hpiece
      rw [goto_content, hfits.2, List.take_of_length_le hle]
    | some =>
      refine h.next hcall hfits.1 rfl (fun j hj => by simp [hj]) rfl ⟨hfits.1,?_⟩
      simp [hfits.2, List.take_add_one, hpiece]
  | link =>
    simp only [advance]
    cases hpublished : w.published with
    | none =>
      have hext : Extends i w ({ w with published := some i }.goto i payload (.unlink (.ok ()))) :=
        extends_goto (payload_eq hcall) rfl (fun _ _ => rfl) (.inr ⟨hpublished,rfl⟩)
      refine ⟨hext,h.step hext goto_calls ⟨payload,?_,?_⟩ fun _ => hfits.2⟩
      · simp [World.identity]
      · simp [Json.equal_refl]
    | some => exact h.look hcall hfits.1 ⟨hfits.1,by simp [hpublished]⟩
  | openLinked =>
    obtain ⟨hne,hsome⟩ := hfits
    obtain ⟨inode,hpublished⟩ := isSome_iff_exists.mp hsome
    simp only [advance, hpublished]
    exact h.look hcall hne ⟨hne,hpublished⟩
  | loadLinked => exact h.compare hcall hfits.1 hfits.2 (.inl rfl)
  | unlink result =>
    have hext : Extends i w (w.advance codec i payload (.unlink result)) :=
      extends_goto_same (payload_eq hcall) rfl rfl rfl
    obtain ⟨p,hp,hresult⟩ := hfits
    refine ⟨hext,h.step hext goto_calls ⟨p,hext.identity_eq hp,hresult⟩ fun hi => ?_⟩
    obtain ⟨c,hc,hcontent⟩ := h.complete i hi
    rwa [payload_eq hcall c hc] at hcontent
  | ended => exact ⟨⟨fun _ _ => rfl,fun c hc => ⟨c,hc,rfl⟩,fun _ _ => rfl,.inl rfl⟩,h⟩

end

/-! ### Runs -/

def Grows (w w' : World C) : Prop := ∀ p, w.identity = some p → w'.identity = some p ∧ w'.file = w.file

theorem Extends.grows (h : Extends i w w') : Grows w w' := by
  intro p hp
  refine ⟨h.identity_eq hp,?_⟩
  simp only [identity, bind_eq_some_iff] at hp
  obtain ⟨k,hk,-⟩ := hp
  have hcontent : w'.content k = w.content k := by
    apply h.content
    by_cases hki : k = i
    · exact .inr (hki ▸ hk)
    · exact .inl hki
  simp [file, hk, h.published_eq hk, hcontent]

/-- Every step keeps the invariant and takes nothing away. -/
theorem step_spec (h : Inv codec w) (op : Op) : Grows w (w.step codec op) ∧ Inv codec (w.step codec op) := by
  cases op with
  | call i payload =>
    simp only [World.step]
    cases hcall : w.calls i with
    | some => exact ⟨fun p hp => ⟨hp,rfl⟩,h⟩
    | none =>
      have hext : Extends i w (w.goto i payload .stat) :=
        extends_goto_same (fun c hc => by simp [hcall] at hc) rfl rfl rfl
      have hne : w.published ≠ some i := by
        intro hi
        obtain ⟨c,hc,-⟩ := h.complete i hi
        simp [hcall] at hc
      exact ⟨hext.grows,h.step hext goto_calls hne fun hi => absurd hi hne⟩
  | step i =>
    simp only [World.step]
    cases hcall : w.calls i with
    | none => exact ⟨fun p hp => ⟨hp,rfl⟩,h⟩
    | some =>
      obtain ⟨hext,hinv⟩ := h.advance hcall
      exact ⟨hext.grows,hinv⟩

theorem inv_empty : Inv codec (.empty : World C) :=
  ⟨fun i c hc => by simp [World.empty] at hc,fun i hi => by simp [World.empty] at hi⟩

theorem inv_run (codec : Codec C) (ops : List Op) : Inv codec (run (World.step codec) .empty ops) :=
  run_invariant (P := Inv codec) (fun _ op h => (step_spec h op).2) inv_empty ops

theorem Grows.trans {w₁ w₂ w₃ : World C} (h : Grows w₁ w₂) (h' : Grows w₂ w₃) : Grows w₁ w₃ := by
  intro p hp
  obtain ⟨hp',hfile⟩ := h p hp
  obtain ⟨hp'',hfile'⟩ := h' p hp'
  exact ⟨hp'',hfile'.trans hfile⟩

theorem grows_run (h : Inv codec w) (ops : List Op) : Grows w (run (World.step codec) w ops) :=
  run_rel (I := Inv codec) (R := Grows) (fun _ _ hp => ⟨hp,rfl⟩) (fun _ _ _ => Grows.trans)
    (fun _ op h => (step_spec h op).2)
    (fun _ op h => (step_spec h op).1) h ops

/-! ### Every call comes to an end -/

def Point.remaining (pieces : ℕ) : Point → ℕ
  | .stat => pieces + 9
  | .mkdir => pieces + 8
  | .openExisting => pieces + 7
  | .create => pieces + 6
  | .write written => pieces - written + 5
  | .link => 4
  | .openLinked => 3
  | .loadLinked _ => 2
  | .load _ => 1
  | .unlink _ => 1
  | .ended _ => 0

def Call.remaining (codec : Codec C) (c : Call) : ℕ := c.point.remaining (codec.dumps c.payload).length

theorem advance_eq (codec : Codec C) (w : World C) (i : ℕ) (payload : Json) (point : Point) :
    (∃ result, point = .ended result ∧ w.advance codec i payload point = w) ∨
    ∃ (w₁ : World C) (point' : Point), w.advance codec i payload point = w₁.goto i payload point' ∧ w₁.calls = w.calls ∧
      (Call.mk payload point').remaining codec < (Call.mk payload point).remaining codec := by
  cases point with
  | stat =>
    cases hdirectory : w.directory with
    | false => exact .inr ⟨w,.mkdir,by simp [advance, hdirectory],rfl,by simp [Call.remaining, Point.remaining]⟩
    | true => exact .inr ⟨w,.openExisting,by simp [advance, hdirectory],rfl,by simp [Call.remaining, Point.remaining]⟩
  | openExisting | link | openLinked =>
    simp only [advance]
    cases w.published with
    | none | some =>
      refine .inr ⟨_,_,rfl,rfl,?_⟩
      simp [Call.remaining, Point.remaining]
  | write written =>
    simp only [advance]
    cases hpiece : (codec.dumps payload)[written]? with
    | none =>
      refine .inr ⟨_,_,rfl,rfl,?_⟩
      simp only [Call.remaining, Point.remaining]
      omega
    | some =>
      obtain ⟨hlt,-⟩ := List.getElem?_eq_some_iff.mp hpiece
      refine .inr ⟨_,_,rfl,rfl,?_⟩
      simp only [Call.remaining, Point.remaining]
      omega
  | ended result => exact .inl ⟨result,rfl,rfl⟩
  | _ =>
      refine .inr ⟨_,_,rfl,rfl,?_⟩
      simp [Call.remaining, Point.remaining]

theorem advance_calls_ne (h : j ≠ i) : (w.advance codec i payload point).calls j = w.calls j := by
  obtain ⟨-,-,heq⟩ | ⟨w₁,point',heq,hcalls,-⟩ := advance_eq codec w i payload point
  · rw [heq]
  · simp [heq, goto, hcalls, h]

theorem advance_remaining (hcall : w.calls i = some ⟨payload,point⟩) :
    ∃ c, (w.advance codec i payload point).calls i = some c ∧
    c.payload = payload ∧ c.remaining codec ≤ (Call.mk payload point).remaining codec - 1 := by
  obtain ⟨result,rfl,heq⟩ | ⟨w₁,point',heq,-,hlt⟩ := advance_eq codec w i payload point
  · exact ⟨_,by rw [heq, hcall],rfl,by simp [Call.remaining, Point.remaining]⟩
  · exact ⟨_,by rw [heq, goto_calls],rfl,by omega⟩

/-- A writer that is scheduled comes closer to its end. -/
theorem step_remaining (hcall : w.calls i = some c) (op : Op) : ∃ c', (w.step codec op).calls i = some c' ∧
    c'.payload = c.payload ∧ c'.remaining codec ≤ c.remaining codec - if op.schedules i then 1 else 0 := by
  cases op with
  | call j =>
    simp only [World.step, Op.schedules]
    cases hj : w.calls j with
    | some => exact ⟨c,hcall,rfl,by simp⟩
    | none =>
      have hij : i ≠ j := by
        rintro rfl
        simp [hcall] at hj
      exact ⟨c,by simp [goto, hij, hcall],rfl,by simp⟩
  | step j =>
    simp only [World.step, Op.schedules]
    by_cases hji : j = i
    · subst hji
      simpa [hcall] using advance_remaining hcall
    · have hij : i ≠ j := Ne.symm hji
      cases hj : w.calls j with
      | none => exact ⟨c,hcall,rfl,by simp [hji]⟩
      | some => exact ⟨c,by rw [advance_calls_ne hij, hcall],rfl,by simp [hji]⟩

theorem run_remaining (codec : Codec C) (hcall : w.calls i = some c) (ops : List Op) :
    ∃ c', (run (World.step codec) w ops).calls i = some c' ∧ c'.payload = c.payload ∧
      c'.remaining codec ≤ c.remaining codec - ops.countP (Op.schedules i) := by
  induction ops generalizing w c with
  | nil => exact ⟨c,hcall,rfl,by simp⟩
  | cons op _ ih =>
    obtain ⟨c₁,hc₁,hpayload₁,hle₁⟩ := step_remaining hcall op
    obtain ⟨c',hc',hpayload,hle⟩ := ih hc₁
    refine ⟨c',hc',hpayload.trans hpayload₁,?_⟩
    simp only [List.countP_cons]
    omega

theorem remaining_le (codec : Codec C) (c : Call) : c.remaining codec ≤ (codec.dumps c.payload).length + 9 := by
  obtain ⟨payload,point⟩ := c
  cases point <;> simp only [Call.remaining, Point.remaining] <;> omega

theorem run_ended (hcall : w.calls i = some c) {ops : List Op}
    (hops : (codec.dumps c.payload).length + 9 ≤ ops.countP (Op.schedules i)) :
    ∃ result, (run (World.step codec) w ops).calls i = some ⟨c.payload,.ended result⟩ := by
  obtain ⟨⟨payload,point⟩,hc',hpayload,hle⟩ := run_remaining codec hcall ops
  change payload = c.payload at hpayload
  subst hpayload
  have hzero : point.remaining (codec.dumps c.payload).length = 0 := by
    have hbound := remaining_le codec c
    simp only [Call.remaining] at hle hbound
    omega
  cases point <;> simp [Point.remaining] at hzero
  exact ⟨_,hc'⟩

/-! ### Publication -/

/-- No two calls have payloads that Python takes for equal although they are different. -/
def Distinguished (w : World C) : Prop :=
  ∀ i j c c', w.calls i = some c → w.calls j = some c' → c.payload.equal c'.payload = true →
    c.payload.same c'.payload = true

/-- The file of a run appears with a complete payload and never changes. A call that has
ended returned exactly if its payload is equal to the published one, and a call that is
scheduled often enough has ended. If equality for Python distinguishes all payloads, a call
returns exactly if its payload is the published one. -/
theorem identity_write_once (codec : Codec C) (ops : List Op) :
    let state := fun n => run (World.step codec) .empty (ops.take n)
    let final := run (World.step codec) .empty ops
    (∀ n m, n ≤ m → ∀ content, (state n).file = some content →
      (state m).file = some content ∧ ∃ p, (state m).identity = some p ∧ (state n).identity = some p ∧
        content = codec.dumps p) ∧
    (∀ i c result, final.calls i = some c → c.point = .ended result →
      ∃ p, final.identity = some p ∧ (result = .ok () ↔ p.equal c.payload = true)) ∧
    (∀ i c later, final.calls i = some c → (codec.dumps c.payload).length + 9 ≤ later.countP (Op.schedules i) →
      ∃ result, (run (World.step codec) final later).calls i = some ⟨c.payload,.ended result⟩) ∧
    (Distinguished final → ∀ i c result, final.calls i = some c → c.point = .ended result →
      ∃ p, final.identity = some p ∧ (result = .ok () ↔ p.same c.payload = true)) := by
  intro state final
  have hended : ∀ i c result, final.calls i = some c → c.point = .ended result →
      ∃ p, final.identity = some p ∧ (result = .ok () ↔ p.equal c.payload = true) := by
    intro i c result hc hpoint
    have hfits := (inv_run codec ops).fits i c hc
    rw [hpoint] at hfits
    exact hfits
  refine ⟨fun n m hnm content hcontent => ?_,hended,fun i c later hc hlater => run_ended hc hlater,
    fun hdistinct i c result hc hpoint => ?_⟩
  · obtain ⟨k,hk,rfl⟩ := map_eq_some_iff.mp hcontent
    obtain ⟨p,hp,hdumps⟩ := (inv_run codec (ops.take n)).identity hk
    have hrest : state m = run (World.step codec) (state n) ((ops.take m).drop n) :=
      run_take_of_le (World.step codec) .empty ops hnm
    obtain ⟨hp',hfile⟩ := grows_run (inv_run codec (ops.take n)) ((ops.take m).drop n) p hp
    exact ⟨by rw [hrest, hfile, hcontent],p,by rw [hrest, hp'],hp,hdumps⟩
  · obtain ⟨p,hp,hresult⟩ := hended i c result hc hpoint
    refine ⟨p,hp,hresult.trans ⟨fun hequal => ?_,Json.equal_of_same⟩⟩
    obtain ⟨k,-,hk⟩ := bind_eq_some_iff.mp hp
    obtain ⟨c',hc',rfl⟩ := map_eq_some_iff.mp hk
    exact hdistinct k i c' c hc' hc hequal

def Codec.plain : Codec Json where
  dumps p := [p]
  loads content := content.head?
  faithful p := ⟨p,rfl,fun _ => rfl⟩

/-- `{"a": value}` -/
def Json.field (value : Atom) : Json := .object ["a"] fun _ => .atom value

def oneAfterAnother (first second : Json) : List Op :=
  .call 0 first :: List.replicate 12 (.step 0) ++ .call 1 second :: List.replicate 12 (.step 1)

theorem true_taken_for_one :
    let final := run (World.step .plain) .empty (oneAfterAnother (.field (.number 1)) (.field (.bool true)))
    final.identity = some (.field (.number 1)) ∧
    final.calls 1 = some ⟨.field (.bool true),.ended (.ok ())⟩ ∧
    Json.same (.field (.number 1)) (.field (.bool true)) = false := ⟨rfl,rfl,rfl⟩

theorem distinguished_two_numbers :
    Distinguished (run (World.step .plain) .empty (oneAfterAnother (.field (.number 1)) (.field (.number 2)))) := by
  intro i j c c' hi hj
  have hcalls : ∀ k d, (run (World.step .plain) .empty
    (oneAfterAnother (.field (.number 1)) (.field (.number 2)))).calls k = some d →
      d.payload = .field (.number 1) ∨ d.payload = .field (.number 2) := by
    intro k d hd
    match k with
    | 0 =>
      cases hd
      exact .inl rfl
    | 1 =>
      cases hd
      exact .inr rfl
    | k + 2 => cases hd
  obtain hc | hc := hcalls i c hi <;> obtain hc' | hc' := hcalls j c' hj <;> rw [hc, hc'] <;> decide

theorem second_payload_refused :
    let final := run (World.step .plain) .empty (oneAfterAnother (.field (.number 1)) (.field (.number 2)))
    final.calls 1 = some ⟨.field (.number 2),.ended (.error .conflicting)⟩ ∧
    ∃ p, final.identity = some p ∧
      ((Except.error .conflicting : Result) = .ok () ↔ p.same (.field (.number 2)) = true) :=
  ⟨rfl,(identity_write_once .plain _).2.2.2 distinguished_two_numbers 1 _ _ rfl rfl⟩

end OpenPine.Identity
