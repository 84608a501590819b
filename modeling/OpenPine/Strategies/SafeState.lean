import OpenPine.Foundation.Runs
import OpenPine.Strategies.Registry

/-! # When strategies are enabled

No archived strategy is enabled, and none is while the circuit is open. Every operation
keeps this, except that tripping the circuit only reaches the strategies that are stored
as enabled by the integer one, while a patch may store any other value.
-/
namespace OpenPine.Strategies
open Runs Sqlite Transaction Python Registry List

structure Safe (r : Registry) : Prop where
  archived : ∀ row ∈ r.rows.rows, row.archived = true → row.enabled = false
  circuit : r.circuitOpen = true → ∀ row ∈ r.rows.rows, row.enabled = false

def Row.Safe (circuitOpen : Bool) (row : Row) : Prop := row.enabled = true → row.archived = false ∧ circuitOpen = false

theorem safe_iff {r : Registry} : Safe r ↔ ∀ row ∈ r.rows.rows, row.Safe r.circuitOpen := by
  constructor
  · intro h row hrow henabled
    refine ⟨Bool.eq_false_iff.mpr fun harchived => ?_,Bool.eq_false_iff.mpr fun hopen => ?_⟩
    · exact Bool.eq_false_iff.mp (h.archived row hrow harchived) henabled
    · exact Bool.eq_false_iff.mp (h.circuit hopen row hrow) henabled
  · intro h
    refine ⟨fun row hrow harchived => ?_,fun hopen row hrow => ?_⟩
    · exact Bool.eq_false_iff.mpr fun henabled => Bool.eq_false_iff.mp (h row hrow henabled).1 harchived
    · exact Bool.eq_false_iff.mpr fun henabled => Bool.eq_false_iff.mp (h row hrow henabled).2 hopen

/-! ### What an operation may do -/

def Guarded (r : Registry) (strategyId : String) (changes : Changes) : Prop :=
  ∀ row ∈ r.rows.rows, row.strategyId = strategyId → row.Safe r.circuitOpen → (changes.apply row).Safe r.circuitOpen

/-- What is stored as enabled is found by `enabled = 1`. -/
def Changes.Plain (changes : Changes) : Prop := ∀ cell, changes .enabled = some cell → cell.truthy = true →
    cell.isOne = true

/-- A patch that sets `enabled` stores nothing else for it than one and what reads as false. -/
def Op.Plain (e : Conversions) : Op → Prop
  | .patchStrategyAtomic _ updates => ∀ v cell, updates.get? "enabled" = some v → v.bind = some cell →
      (e.stored .integer cell).truthy = true → (e.stored .integer cell).isOne = true
  | _ => True

inductive Effect (e : Conversions) (r : Registry) (op : Op) : Registry → Prop
  | same : Effect e r op r
  | inserted (row : Row) (rows : Table Row Row.strategyId) (hrows : rows.rows = r.rows.rows ++ [row])
      (hrow : row.enabled = false) : Effect e r op { r with rows }
  | updated (strategyId : String) (changes : Changes) (hguarded : Guarded r strategyId changes)
      (hplain : op.Plain e → changes.Plain) : Effect e r op (r.updateStrategy strategyId changes)
  | paused : Effect e r op r.pauseAllEnabled.2
  | erased (strategyId : String) : Effect e r op { r with rows := r.rows.erase strategyId }
  | closed : Effect e r op r.resetWorkerCircuit

section Effects
variable {e : Conversions} {r : Registry} {op : Op} {strategyId : String} {row : Row}

theorem Effect.settle {α : Type} {x : Except Failure (α × Registry)} (h : ∀ a r', x = .ok (a, r') → Effect e r op r') :
    Effect e r op (settle r x) := by
  obtain ⟨a,ha⟩ | ⟨-,hsame⟩ := settle_cases r x
  · exact h a _ ha
  · rw [hsame]
    exact .same

theorem insert_rows {r' : Registry} {row' : Row} (h : r.insert row = .ok (row', r')) :
    ∃ rows : Table Row Row.strategyId, rows.rows = r.rows.rows ++ [row] ∧ r' = { r with rows } := by
  unfold Registry.insert at h
  split at h
  · cases h
  · obtain ⟨-,⟨⟩⟩ := throw_ite_eq_ok.mp h
    exact ⟨_,Table.insert?_rows ‹_›,rfl⟩

theorem insert_effect (hrow : row.enabled = false) : Effect e r op (settle r (r.insert row)) := by
  refine .settle fun row' r' hinsert => ?_
  obtain ⟨rows,hrows,rfl⟩ := insert_rows hinsert
  exact .inserted row rows hrows hrow

variable {changes : Changes} {r' : Registry}

theorem guarded_of_found (hfound : r.rows.find? strategyId = some row)
    (h : row.Safe r.circuitOpen → (changes.apply row).Safe r.circuitOpen) : Guarded r strategyId changes := by
  intro row' hrow' hid hsafe
  cases Table.eq_of_key hrow' (Table.mem_of_find? hfound) (hid.trans (Table.key_of_find? hfound).symm)
  exact h hsafe

theorem plain_flag (h : ∀ cell, changes .enabled = some cell → ∃ b, cell = .flag b) : changes.Plain := by
  intro cell hcell htruthy
  obtain ⟨b,rfl⟩ := h cell hcell
  rw [Cell.truthy_flag] at htruthy
  rw [Cell.isOne_flag, htruthy]

theorem executionState_eq_ok {current : ExecutionState} : r.executionState e strategyId = .ok current ↔
    ∃ row, r.rows.find? strategyId = some row ∧
      current = ⟨row.enabled,row.archived,e.str (row.cells .status),e.str (row.cells .mode)⟩ := by
  unfold executionState
  cases r.rows.find? strategyId with
  | none =>
    constructor
    · intro h
      cases h
    · rintro ⟨row,hrow,-⟩
      cases hrow
  | some row =>
    constructor
    · intro h
      cases h
      exact ⟨row,rfl,rfl⟩
    · rintro ⟨row',hrow',rfl⟩
      cases hrow'
      rfl

theorem activation_effect {next : Bool} (hfound : r.rows.find? strategyId = some row)
    (harchived : ¬(next = true ∧ row.archived = true)) (hopen : ¬(next = true ∧ r.circuitOpen = true))
    (hnext : changes .enabled = some (.flag next)) (hkeep : changes .archived = none) :
    Effect e r op (r.updateStrategy strategyId changes) := by
  refine .updated strategyId changes (guarded_of_found hfound fun _ henabled => ?_) fun _ => plain_flag
    fun cell hcell => ?_
  · have htrue : next = true := by
      rw [changes.enabled_apply, hnext] at henabled
      exact (Cell.truthy_flag next).symm.trans henabled
    refine ⟨?_,Bool.eq_false_iff.mpr fun h => hopen ⟨htrue,h⟩⟩
    rw [changes.archived_apply, hkeep]
    exact Bool.eq_false_iff.mpr fun h => harchived ⟨htrue,h⟩
  · exact ⟨next,Option.some.inj (hcell.symm.trans hnext)⟩

theorem setArchived_effect (archived : Bool) : Effect e r op (settle r (r.setArchived e strategyId archived)) := by
  refine .settle fun _ r' h => ?_
  obtain ⟨current,hcurrent,h⟩ := bind_eq_ok.mp h
  obtain ⟨row,hrow,rfl⟩ := executionState_eq_ok.mp hcurrent
  cases h
  refine .updated strategyId _ (guarded_of_found hrow fun hsafe henabled => ?_) fun _ => plain_flag fun cell hcell => ?_
  · have hnext : (if archived then false else row.enabled) = true := (Cell.truthy_flag _).symm.trans henabled
    cases archived with
    | true => exact absurd hnext Bool.false_ne_true
    | false => exact ⟨rfl,(hsafe hnext).2⟩
  · exact ⟨_,(Option.some.inj hcell).symm⟩

theorem unrelated_effect (henabled : changes .enabled = none) (harchived : changes .archived = none) :
    Effect e r op (r.updateStrategy strategyId changes) := by
  refine .updated strategyId changes (fun row _ _ hsafe h => ?_) fun _ cell hcell => ?_
  · rw [changes.enabled_apply, henabled] at h
    rw [changes.archived_apply, harchived]
    exact hsafe h
  · rw [henabled] at hcell
    cases hcell

theorem updateField_effect {column : Column} (henabled : column ≠ .enabled) (harchived : column ≠ .archived)
    (value : Except String String) : Effect e r op (settle r (r.updateField strategyId column value)) := by
  refine .settle fun _ r' h => ?_
  obtain ⟨_,-,h⟩ := bind_eq_ok.mp h
  cases value with
  | error => cases h
  | ok =>
    cases h
    exact unrelated_effect (if_neg henabled.symm) (if_neg harchived.symm)

/-! ### Patches -/

theorem Column.mem_all (column : Column) : column ∈ Column.all := by cases column <;> decide

theorem storedChanges_ok {values : Column → Option Value} (h : storedChanges e values = .ok changes) (column : Column) :
    (values column = none ∧ changes column = none) ∨
      ∃ v cell, values column = some v ∧ v.bind = some cell ∧
        changes column = some (e.stored column.affinity cell) := by
  simp only [storedChanges] at h
  split at h
  · cases h
  · rename_i hbind
    split at h
    · cases h
    · cases h
      have hbound := List.find?_eq_none.mp hbind column column.mem_all
      cases hvalue : values column with
      | none => exact .inl ⟨rfl,by simp [hvalue]⟩
      | some v =>
        refine .inr ⟨v,?_⟩
        cases hcell : v.bind with
        | none =>
          rw [hvalue] at hbound
          simp [hcell] at hbound
        | some cell => exact ⟨cell,rfl,rfl,by simp [hvalue, hcell]⟩

section Patch
variable {values : Column → Option Value} {changes : Changes} {row : Row} {status : String}

theorem archiving_enabled (h : storedChanges e (archivingValues values status) = .ok changes) :
    changes .enabled = some (.flag false) := by
  obtain ⟨hnone,-⟩ | ⟨v,cell,hv,hcell,hchange⟩ := storedChanges_ok h .enabled
  · cases hnone
  · cases hv
    cases hcell
    exact hchange

theorem archived_apply (h : storedChanges e values = .ok changes)
    (hnext : ((values .archived).map Value.truthy).getD row.archived = false) :
    (changes.apply row).archived = false := by
  rw [changes.archived_apply]
  obtain ⟨hvalue,hchange⟩ | ⟨v,cell,hvalue,hcell,hchange⟩ := storedChanges_ok h .archived
  · rw [hvalue] at hnext
    rw [hchange]
    exact hnext
  · rw [hvalue] at hnext
    rw [hchange]
    exact e.truthy_stored hnext hcell

theorem enabled_apply (h : storedChanges e values = .ok changes) (henabled : (changes.apply row).enabled = true) :
    ((values .enabled).map Value.truthy).getD row.enabled = true := by
  rw [changes.enabled_apply] at henabled
  obtain ⟨hvalue,hchange⟩ | ⟨v,cell,hvalue,hcell,hchange⟩ := storedChanges_ok h .enabled
  · rw [hchange] at henabled
    rw [hvalue]
    exact henabled
  · rw [hchange] at henabled
    rw [hvalue]
    refine eq_true_of_ne_false fun hfalse => ?_
    exact Bool.eq_false_iff.mp (e.truthy_stored hfalse hcell) henabled

end Patch

theorem patchStrategyAtomic_effect (updates : Dict String Value) :
    Effect e r (.patchStrategyAtomic strategyId updates) (settle r (r.patchStrategyAtomic e strategyId updates)) := by
  refine .settle fun _ r' h => ?_
  obtain ⟨-,h⟩ := throw_ite_eq_ok.mp h
  split at h
  · cases h
    exact .same
  obtain ⟨current,hcurrent,h⟩ := bind_eq_ok.mp h
  obtain ⟨row,hrow,rfl⟩ := executionState_eq_ok.mp hcurrent
  obtain ⟨hrequested,h⟩ := throw_ite_eq_ok.mp h
  obtain ⟨hopen,h⟩ := throw_ite_eq_ok.mp h
  obtain ⟨changes,hchanges,h⟩ := bind_eq_ok.mp h
  obtain ⟨-,h⟩ := throw_ite_eq_ok.mp h
  cases h
  cases harchiving : ((updates.get? Column.archived.key).map Value.truthy).getD false with
  | true =>
    rw [harchiving, if_pos rfl] at hchanges
    have hdisabled := archiving_enabled hchanges
    refine .updated strategyId changes (guarded_of_found hrow fun _ henabled => ?_) fun _ => plain_flag
      fun cell hcell => ?_
    · rw [changes.enabled_apply, hdisabled] at henabled
      exact absurd henabled Bool.false_ne_true
    · exact ⟨false,Option.some.inj (hcell.symm.trans hdisabled)⟩
  | false =>
    rw [harchiving] at hchanges hopen
    simp only [Bool.false_eq_true, if_false] at hchanges hopen
    refine .updated strategyId changes (guarded_of_found hrow fun hsafe henabled => ?_)
      fun hplain cell hcell htruthy => ?_
    · have hnext := enabled_apply hchanges henabled
      refine ⟨archived_apply hchanges ?_,Bool.eq_false_iff.mpr fun h => hopen ⟨hnext,h⟩⟩
      cases hvalue : updates.get? Column.enabled.key with
      | none =>
        -- not asked for, so the strategy was enabled before and not archived
        rw [hvalue] at hnext
        cases harchived : updates.get? Column.archived.key with
        | none => exact (hsafe hnext).1
        | some =>
          rw [harchived] at harchiving
          exact harchiving
      | some =>
        have hasked : ((updates.get? Column.enabled.key).map Value.truthy).getD false = true := by
          rw [hvalue] at hnext ⊢
          exact hnext
        exact Bool.eq_false_iff.mpr fun h => hrequested ⟨hasked,h⟩
    · obtain ⟨-,hnone⟩ | ⟨v,bound,hv,hbound,hchange⟩ := storedChanges_ok hchanges .enabled
      · rw [hnone] at hcell
        cases hcell
      · cases hcell.symm.trans hchange
        exact hplain v bound hv hbound htruthy

/-! ### Whole runs -/

/-- All that an operation does to the rows. -/
theorem step_effect (hop : ∀ reason, op ≠ .tripWorkerCircuit reason) : Effect e r op (step e r op) := by
  cases op with
  | registerStrategy | createStrategy => exact insert_effect rfl
  | setEnabled | activateStrategy | transitionStrategy =>
    refine .settle fun _ r' h => ?_
    obtain ⟨current,hcurrent,h⟩ := bind_eq_ok.mp h
    obtain ⟨row,hrow,rfl⟩ := executionState_eq_ok.mp hcurrent
    obtain ⟨harchived,h⟩ := throw_ite_eq_ok.mp h
    obtain ⟨hopen,h⟩ := throw_ite_eq_ok.mp h
    cases h
    exact activation_effect hrow (by tauto) (by tauto) rfl rfl
  | patchStrategyAtomic _ updates => exact patchStrategyAtomic_effect updates
  | setArchived _ archived => exact setArchived_effect archived
  | pauseAllEnabled => exact .paused
  | updateStatus | updateMode | setSemanticProfile | setMtfSeries =>
    refine updateField_effect ?_ ?_ _
    · exact nofun
    · exact nofun
  | deleteStrategy strategyId =>
    refine .settle fun _ r' h => ?_
    obtain ⟨_,-,h⟩ := bind_eq_ok.mp h
    cases h
    exact .erased strategyId
  | tripWorkerCircuit reason => exact absurd rfl (hop reason)
  | resetWorkerCircuit => exact .closed

theorem mem_updateWhere {selected : Row → Bool} (h : row ∈ (r.updateWhere selected changes).rows.rows) :
    ∃ row' ∈ r.rows.rows, (selected row' = true ∧ row = changes.apply row') ∨ (selected row' = false ∧ row = row') := by
  obtain ⟨row',hrow',rfl⟩ := mem_map.mp h
  refine ⟨row',hrow',?_⟩
  split
  · exact .inl ⟨‹_›,rfl⟩
  · exact .inr ⟨Bool.eq_false_iff.mpr ‹_›,rfl⟩

theorem Effect.each {P : Bool → Row → Prop} (h : Effect e r op r') (hdisabled : ∀ b row, row.enabled = false → P b row)
    (hclosed : ∀ b row, P b row → P false row)
    (hupdated : ∀ strategyId changes, Guarded r strategyId changes → (op.Plain e → changes.Plain) →
      ∀ row ∈ r.rows.rows, row.strategyId = strategyId → P r.circuitOpen row → P r.circuitOpen (changes.apply row))
    (hr : ∀ row ∈ r.rows.rows, P r.circuitOpen row) : ∀ row ∈ r'.rows.rows, P r'.circuitOpen row := by
  cases h with
  | same => exact hr
  | inserted row _ hrows hrow =>
    intro row' hrow'
    rcases mem_append.mp (hrows ▸ hrow') with hold | hnew
    · exact hr row' hold
    · cases mem_singleton.mp hnew
      exact hdisabled _ row hrow
  | updated strategyId changes hguarded hplain =>
    intro row hrow
    obtain ⟨row',hrow',⟨hid,rfl⟩ | ⟨-,rfl⟩⟩ := mem_updateWhere hrow
    · exact hupdated strategyId changes hguarded hplain row' hrow' (of_decide_eq_true hid) (hr row' hrow')
    · exact hr row hrow'
  | paused =>
    intro row hrow
    obtain ⟨row',hrow',⟨-,rfl⟩ | ⟨-,rfl⟩⟩ := mem_updateWhere hrow
    · exact hdisabled _ _ rfl
    · exact hr row hrow'
  | erased => exact fun row hrow => hr row (Table.mem_erase hrow)
  | closed => exact fun row hrow => hclosed _ row (hr row hrow)

theorem Effect.safe (h : Effect e r op r') (hsafe : Safe r) : Safe r' := by
  rw [safe_iff] at hsafe ⊢
  refine h.each (P := Row.Safe) ?_ ?_ ?_ hsafe
  · exact fun _ _ hdisabled henabled => absurd henabled (Bool.eq_false_iff.mp hdisabled)
  · exact fun _ _ hrow henabled => ⟨(hrow henabled).1,rfl⟩
  · exact fun _ _ hguarded _ row hrow hid hsafe => hguarded row hrow hid hsafe

def Plain (r : Registry) : Prop := ∀ row ∈ r.rows.rows, row.enabled = true → Registry.storedEnabled row = true

theorem Effect.plain (h : Effect e r op r') (hop : op.Plain e) (hplain : Plain r) : Plain r' := by
  refine h.each (P := fun _ row => row.enabled = true → storedEnabled row = true) ?_ (fun _ _ => id) ?_ hplain
  · exact fun _ _ hdisabled henabled => absurd henabled (Bool.eq_false_iff.mp hdisabled)
  · intro strategyId changes _ hchanges row _ _ hrow henabled
    rw [changes.enabled_apply] at henabled
    change ((changes .enabled).getD (row.cells .enabled)).isOne = true
    cases hcell : changes .enabled with
    | none =>
      rw [hcell] at henabled
      exact hrow henabled
    | some cell =>
      rw [hcell] at henabled
      exact hchanges hop cell hcell henabled

theorem trip_safe_iff (reason : String) : Safe (r.tripWorkerCircuit reason).2 ↔ Plain r := by
  constructor
  · intro h row hrow henabled
    by_contra hmissed
    have hkept : row ∈ (r.tripWorkerCircuit reason).2.rows.rows := mem_map.mpr ⟨row,hrow,if_neg hmissed⟩
    exact Bool.eq_false_iff.mp (h.circuit rfl row hkept) henabled
  · intro hplain
    refine safe_iff.mpr fun row hrow henabled => ?_
    obtain ⟨row',hrow',⟨-,rfl⟩ | ⟨hmissed,rfl⟩⟩ := mem_updateWhere hrow
    · exact absurd henabled Bool.false_ne_true
    · exact absurd (hplain row hrow' henabled) (Bool.eq_false_iff.mp hmissed)

theorem trip_plain (hplain : Plain r) (reason : String) : Plain (r.tripWorkerCircuit reason).2 := by
  intro row hrow henabled
  obtain ⟨row',hrow',⟨-,rfl⟩ | ⟨-,rfl⟩⟩ := mem_updateWhere hrow
  · exact absurd henabled Bool.false_ne_true
  · exact hplain row hrow' henabled

end Effects

/-- If the operation trips the circuit, it reaches every enabled strategy. -/
def Reached (r : Registry) (op : Op) : Prop := ∀ reason, op = .tripWorkerCircuit reason → Plain r

section Steps
variable {e : Conversions} {r : Registry} {op : Op}

/-- An operation leaves the registry safe exactly if it is allowed to. -/
theorem step_safe_iff (hsafe : Safe r) : Safe (step e r op) ↔ Reached r op := by
  by_cases htrip : ∃ reason, op = .tripWorkerCircuit reason
  · obtain ⟨reason,rfl⟩ := htrip
    refine (trip_safe_iff reason).trans ⟨fun h _ _ => h,fun h => h reason rfl⟩
  · have hop : ∀ reason, op ≠ .tripWorkerCircuit reason := fun reason heq => htrip ⟨reason,heq⟩
    exact iff_of_true ((step_effect hop).safe hsafe) fun reason heq => absurd heq (hop reason)

theorem step_plain (hop : op.Plain e) (hplain : Plain r) : Plain (step e r op) := by
  by_cases htrip : ∃ reason, op = .tripWorkerCircuit reason
  · obtain ⟨reason,rfl⟩ := htrip
    exact trip_plain hplain reason
  · exact (step_effect fun reason heq => htrip ⟨reason,heq⟩).plain hop hplain

end Steps

theorem safe_empty : Safe .empty := ⟨by simp [Registry.empty],by simp [Registry.empty]⟩

/-- A run is safe throughout exactly if every trip of the circuit reaches all enabled
strategies, which it does if all patches store one or a false value as `enabled`. -/
theorem safe_throughout_iff (e : Conversions) (ops : List Op) :
    (Always (step e) Safe .empty ops ↔ EachStep (step e) Reached .empty ops) ∧
    ((∀ op ∈ ops, op.Plain e) → Always (step e) Safe .empty ops) := by
  have hiff : Always (step e) Safe .empty ops ↔ EachStep (step e) Reached .empty ops :=
    always_iff_eachStep (I := fun _ => True) (fun _ _ _ => trivial) (fun _ _ _ => step_safe_iff) trivial safe_empty ops
  refine ⟨hiff,fun hplain => hiff.mpr ?_⟩
  have hempty : Plain .empty := fun row hrow => absurd hrow not_mem_nil
  exact eachStep_of_invariant (I := Plain) (K := Op.Plain e) (fun _ _ h hop => step_plain hop h)
    (fun _ _ h _ _ _ => h) hempty hplain

def patchThenTrip (enabled : Value) : List Op :=
  [.createStrategy "9c5b94b1" 1 .sample "trend" none, .patchStrategyAtomic "strat_9c5b94b1_1"
    (.put .empty "enabled" enabled),
    .tripWorkerCircuit "worker failed"]

/-- A strategy that was patched to `enabled = 2` stays enabled when the circuit is tripped. -/
theorem enabled_two_survives_trip :
    let final := run (step digits) .empty (patchThenTrip (.int 2))
    final.circuitOpen = true ∧ final.rows.rows.map Row.enabled = [true] ∧ ¬Safe final := by
  intro final
  have hrows : final.rows.rows.map Row.enabled = [true] := by decide +kernel
  refine ⟨rfl,hrows,fun hsafe => ?_⟩
  obtain ⟨row,hrow,henabled⟩ := mem_map.mp (hrows ▸ mem_cons_self : true ∈ final.rows.rows.map Row.enabled)
  exact Bool.eq_false_iff.mp (hsafe.circuit rfl row hrow) henabled

theorem enabled_true_is_tripped : Always (step digits) Safe .empty (patchThenTrip (.bool true)) ∧
    (run (step digits) .empty ((patchThenTrip (.bool true)).take 2)).rows.rows.map Row.enabled = [true] := by
  refine ⟨(safe_throughout_iff digits (patchThenTrip (.bool true))).2 ?_,by decide +kernel⟩
  refine forall_mem_cons.mpr ⟨trivial,forall_mem_cons.mpr ⟨?_,by simp [Op.Plain]⟩⟩
  rintro v cell ⟨⟩ ⟨⟩ -
  rfl

end OpenPine.Strategies
