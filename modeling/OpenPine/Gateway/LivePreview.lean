import OpenPine.Foundation.Python
import OpenPine.Foundation.Text

/-! # Previews of a live start

`make_live_preview` keeps nothing. A confirmation is accepted if its hash belongs to the strategy, the stack and the
expiry that come with it, so whoever can compute the hash chooses the expiry.
-/
namespace OpenPine.Gateway.LivePreview
open Python

def previewTtlMs : ℤ := 60000

structure Payload where
  strategyId : String
  expiresAtUtcMs : ℤ
  stackId : String
deriving DecidableEq

variable {H : Type}

structure Preview (H : Type) extends Payload where
  mode : String := "LIVE"
  previewHash : H
  confirmationRequired : String := "LIVE"
  mutating : Bool := false

/-- The arguments of `require_live_confirmation`. The empty hash is none. -/
structure Confirmation (H : Type) where
  strategyId : String
  previewHashValue : Option H
  confirmation : String
  expiresAtUtcMs : Option ℤ
  nowMs : ℤ
  stackId : String

inductive Call (H : Type)
  | preview (strategyId : String) (nowMs : ℤ) (stackId : String)
  | confirm (c : Confirmation H)

variable (previewHash : Payload → H)

def makeLivePreview (strategyId : String) (nowMs : ℤ) (stackId : String) : Except String (Preview H) :=
  if Text.strip strategyId = "" then throw "strategy_id required"
  else
    let p : Payload := ⟨strategyId,nowMs + previewTtlMs,stackId⟩
    return { p with previewHash := previewHash p }

def requireLiveConfirmation [DecidableEq H] (c : Confirmation H) : Except String Unit :=
  if c.confirmation ≠ "LIVE" then throw "typed confirmation LIVE required"
  else if c.previewHashValue = none then throw "preview_hash required"
  else match c.expiresAtUtcMs with
    | none => throw "preview expiry required"
    | some expires =>
      if c.nowMs ≥ expires then throw "preview expired"
      else if c.previewHashValue ≠ previewHash ⟨c.strategyId,expires,c.stackId⟩ then throw "preview_hash mismatch"
      else return ()

def Fresh (earlier : List (Call H)) (c : Confirmation H) : Prop :=
  ∃ t, .preview c.strategyId t c.stackId ∈ earlier ∧ c.nowMs - previewTtlMs < t

def HandedOut (earlier : List (Call H)) (hash : Option H) : Prop :=
  ∃ strategyId t stackId preview, .preview strategyId t stackId ∈ earlier ∧
    makeLivePreview previewHash strategyId t stackId = .ok preview ∧ some preview.previewHash = hash

variable {previewHash} [DecidableEq H]

theorem accepted_iff {c : Confirmation H} : requireLiveConfirmation previewHash c = .ok () ↔
    c.confirmation = "LIVE" ∧ ∃ expires, c.expiresAtUtcMs = some expires ∧ c.nowMs < expires ∧
      c.previewHashValue = previewHash ⟨c.strategyId,expires,c.stackId⟩ := by
  unfold requireLiveConfirmation
  rw [throw_ite_eq_ok, throw_ite_eq_ok, not_not]
  refine and_congr_right fun _ => ⟨fun ⟨_,h⟩ => ?_,fun ⟨expires,hexpires,hnow,hvalue⟩ => ?_⟩
  · split at h
    · cases h
    · rename_i expires hexpires
      obtain ⟨hnow,h⟩ := throw_ite_eq_ok.mp h
      exact ⟨expires,hexpires,not_le.mp hnow,not_not.mp (throw_ite_eq_ok.mp h).1⟩
  · simp [hexpires, hnow, hvalue, throw_ite_eq_ok, pure_eq_ok]

/-- A start that presents a hash from an earlier preview is backed by a fresh preview of the strategy and stack. -/
theorem confirmed_start_fresh (hinjective : previewHash.Injective) (earlier : List (Call H)) (c : Confirmation H)
    (hhash : HandedOut previewHash earlier c.previewHashValue)
    (haccepted : requireLiveConfirmation previewHash c = .ok ()) :
    Fresh earlier c := by
  obtain ⟨-,expires,-,hnow,hvalue⟩ := accepted_iff.mp haccepted
  obtain ⟨strategyId,t,stackId,preview,hcall,hpreview,hhanded⟩ := hhash
  obtain ⟨-,⟨⟩⟩ := throw_ite_eq_ok.mp hpreview
  obtain ⟨rfl,rfl,rfl⟩ := Payload.mk.inj (hinjective (Option.some.inj (hhanded.trans hvalue)))
  exact ⟨t,hcall,by omega⟩

def sampleStart (expires : ℤ) : Confirmation Payload := ⟨"s",some ⟨"s",expires,"k"⟩,"LIVE",some expires,0,"k"⟩

theorem previewed_start_fresh : requireLiveConfirmation id (sampleStart 60000) = .ok () ∧
    Fresh [.preview "s" 0 "k"] (sampleStart 60000) :=
  have haccepted : requireLiveConfirmation id (sampleStart 60000) = .ok () := by decide
  ⟨haccepted,confirmed_start_fresh Function.injective_id _ _ ⟨"s",0,"k",_,by simp,rfl,rfl⟩ haccepted⟩

/-- A start with an expiry of the caller's own choice needs no preview at all. -/
theorem unpreviewed_start_accepted : requireLiveConfirmation id (sampleStart 1) = .ok () ∧ ¬Fresh []
    (sampleStart 1) := by
  refine ⟨by decide,?_⟩
  rintro ⟨t,hcall,-⟩
  cases hcall

end OpenPine.Gateway.LivePreview
