import OpenPine.State.SharedIndex

/-! # No update of the index is lost

The holder of the lock works on a copy that it has just loaded, and no other process
replaces the index file until it is released. Hence every interleaving leaves the index
as if the mutations had run one at a time, in the order in which they held the lock.

The delicate part is that loading drops the entries without a file. It drops none, since
a file is unlinked only after its entry has left the copy of the holder, and the file of
a new snapshot has a name that nobody else knows.
-/
namespace OpenPine.State
open Python Runs Session List
variable {σ β : Type} {id : SnapshotId} {state : StrategyState σ} {fp : Option String} {c : Codec σ β}

namespace Session

variable {snap : SnapshotMetadata} {x : Session β} {packed : β}

theorem Written.transfer {d d' : Disk β} (h : Written d snap packed) (hfile : d'.file? snap = d.file? snap)
    (hissued : d.issued ≤ d'.issued) (hids : ∀ {sid m}, m ∈ d'.entries sid → m.snapshotId ≠ snap.snapshotId) :
    Written d' snap packed :=
  ⟨hfile.trans h.file,h.path,h.issued.trans_le hissued,hids⟩

theorem Written.commit (h : x.disk.Sound) {snap' : SnapshotMetadata} {packed' : β}
    (hw' : Written x.disk snap' packed') (hne : snap'.snapshotId ≠ snap.snapshotId) :
    Written (x.commit snap).disk snap' packed' := by
  refine hw'.transfer ?_ (Disk.unlinkAll_issued _ _).ge ?_
  · change (x.disk.unlinkAll snap.strategyId
      ((Registry.save x.reload.store.snapshots snap x.reload.store.maxSnapshotsPerStrategy).2.map
        SnapshotMetadata.snapshotId)).file? snap' = _
    rw [Registry.save_stale, of_reload h, Disk.file?_unlinkAll, if_neg]
    rintro ⟨-,hstale⟩
    rcases Registry.stale_afterSave hstale with hid | ⟨m,hm,hid⟩
    · exact hne hid.symm
    · exact hw'.fresh hm hid
  · intro sid m hm
    rcases commit_origin h hm with ⟨rfl,-⟩ | ⟨m₀,hm₀,hid,-⟩
    · exact Ne.symm hne
    · exact hid ▸ hw'.fresh hm₀

theorem Written.deleteSnapshot (h : x.disk.Sound) (hw : Written x.disk snap packed) {owner : String}
    {snapshots : Registry} (hd : x.reload.store.snapshots.delete id = some (owner, snapshots)) :
    Written (x.deleteSnapshot id).2.disk snap packed := by
  obtain ⟨⟨m,hm,hid⟩,-⟩ := Registry.delete_eq_some hd
  rw [of_reload h] at hm
  refine hw.transfer ?_ ?_ ?_
  · rw [deleteSnapshot_known hd, persist_file?, Disk.file?_unlink, if_neg]
    rintro ⟨-,he⟩
    exact hw.fresh hm (hid.trans he)
  · rw [deleteSnapshot_known hd, persist_issued, Disk.unlink]
  · intro sid m' hm'
    rw [deleteSnapshot_entries h] at hm'
    exact hw.fresh (mem_filter.mp hm').1

theorem Written.markInvalid (h : x.disk.Sound) (hw : Written x.disk snap packed) (strategyId : String)
    (since : Option ℤ) :
    Written (x.markInvalid strategyId since).disk snap packed := by
  refine hw.transfer rfl le_rfl ?_
  intro sid m hm
  rw [markInvalid_entries h] at hm
  split at hm
  · obtain ⟨m₀,hm₀,rfl⟩ := mem_map.mp hm
    rw [SnapshotMetadata.invalidate_snapshotId]
    exact hw.fresh hm₀
  · exact hw.fresh hm

theorem startSave_ready {reason : String} {failedBar : Bool} {now : ℤ} {d : Disk β}
    (h : x.startSave c state reason failedBar fp now = .ready snap d) :
    writeSnapshot c x.disk state reason fp now = .ok (snap, d) := by
  unfold startSave at h
  dsimp only at h
  split at h
  · cases h
  · split at h
    · cases h
    · split at h <;> rename_i hwrite
      · cases h
      · cases h
        exact hwrite

end Session

namespace World
variable {w w' : World β} {i j : ℕ} {p q : Process} {p' : Process}

structure Fits (w : World β) (i : ℕ) (p : Process) : Prop where
  lock : p.pc.critical = true ↔ w.lock = some i
  limit : ∀ {snap limit}, p.pc.mutation? = some (.save snap limit) → limit = p.store.maxSnapshotsPerStrategy
  loaded : ∀ {m}, p.pc = .loaded m → p.store.snapshots = Registry.load w.entries
  changed : ∀ {m sid pending}, p.pc = .unlinking m sid pending →
    p.store.snapshots.items = m.apply w.entries ∧ ∀ id ∈ pending, id < w.disk.issued
  last : ∀ {m}, p.pc.critical = true → p.pc.mutation? = some m → ∃ rest, w.held = rest ++ [m]
  unsaved : ∀ {snap}, p.pc.unsaved? = some snap → ∃ packed, Session.Written w.settled snap packed

theorem Fits.outside (hc : p.pc.critical = false) (hlock : w.lock ≠ some i)
    (hlimit : ∀ {snap limit}, p.pc.mutation? = some (.save snap limit) → limit = p.store.maxSnapshotsPerStrategy)
    (hunsaved : ∀ {snap}, p.pc.unsaved? = some snap → ∃ packed, Written w.settled snap packed) :
    Fits w i p := by
  refine ⟨by simp [hc, hlock],hlimit,fun hpc => ?_,fun hpc => ?_,fun hcrit => ?_,hunsaved⟩
  · rw [hpc] at hc
    cases hc
  · rw [hpc] at hc
    cases hc
  · rw [hc] at hcrit
    cases hcrit

structure Inv (w : World β) : Prop where
  fits : ∀ (i : ℕ) (p : Process), w.processes[i]? = some p → Fits w i p
  holds : ∀ i : ℕ, w.lock = some i → ∃ p, w.processes[i]? = some p
  history : w.entries = w.completed.foldl Mutation.apply []
  sound : w.settled.Sound
  distinct : ∀ (i j : ℕ) (p q : Process) (snap snap' : SnapshotMetadata), i ≠ j → w.processes[i]? = some p →
    w.processes[j]? = some q → p.pc.unsaved? = some snap → q.pc.unsaved? = some snap' →
      snap.snapshotId ≠ snap'.snapshotId

/-- What a step does to the index: nothing, or one mutation as a whole, which is then the
last of the completed ones. -/
def Extends (w w' : World β) : Prop :=
  (w'.completed = w.completed ∧ w'.entries = w.entries) ∨
    ∃ m : Mutation, w'.completed = w.completed ++ [m] ∧ w'.entries = m.apply w.entries

theorem Extends.history (he : Extends w w') (h : w.entries = w.completed.foldl Mutation.apply []) :
    w'.entries = w'.completed.foldl Mutation.apply [] := by
  rcases he with ⟨hsame,hentries⟩ | ⟨m,hmore,hentries⟩
  · rw [hentries, hsame, h]
  · rw [hentries, hmore, foldl_append, ← h]
    rfl

theorem Extends.isPrefix (he : Extends w w') : w.completed <+: w'.completed := by
  rcases he with ⟨hsame,-⟩ | ⟨m,hmore,-⟩
  · exact hsame ▸ prefix_refl _
  · exact hmore ▸ prefix_append _ _

structure Next (w w' : World β) : Prop where
  inv : Inv w'
  index : Extends w w'

theorem Next.refl (h : Inv w) : Next w w := ⟨h,.inl ⟨rfl,rfl⟩⟩

theorem holder_eq (hl : w.lock = some i) (hp : w.processes[i]? = some p) : w.holder = some p := by simp [holder, hl, hp]

theorem holder_none (hl : w.lock = none) : w.holder = none := by simp [holder, hl]

theorem Inv.outside (h : Inv w) (hl : w.lock = some i) (hj : j ≠ i) (hq : w.processes[j]? = some q) :
    q.pc.critical = false := by
  by_contra hcrit
  have hlock := (h.fits j q hq).lock.mp (by simpa using hcrit)
  rw [hl] at hlock
  exact hj (Option.some.inj hlock).symm

/-- What one process does keeps the invariant, if it fits the others. -/
theorem Inv.step (h : Inv w) (hp : w.processes[i]? = some p) (hproc : w'.processes = w.processes.set i p')
    (hi : Fits w' i p') (hothers : ∀ (j : ℕ) (q : Process), j ≠ i → w.processes[j]? = some q → Fits w' j q)
    (hlock : w'.lock = w.lock ∨ w'.lock = some i ∨ w'.lock = none) (hindex : Extends w w') (hsound : w'.settled.Sound)
    (hfresh : ∀ snap, p'.pc.unsaved? = some snap → p.pc.unsaved? = some snap ∨
      ∀ (j : ℕ) (q : Process) (snap' : SnapshotMetadata), j ≠ i → w.processes[j]? = some q →
        q.pc.unsaved? = some snap' → snap.snapshotId ≠ snap'.snapshotId) : Next w w' := by
  have hlt : i < w.processes.length := (List.getElem?_eq_some_iff.mp hp).1
  have hself : w'.processes[i]? = some p' := by rw [hproc, List.getElem?_set_self hlt]
  have hother : ∀ {j : ℕ} {q : Process}, j ≠ i → w'.processes[j]? = some q → w.processes[j]? = some q := by
    intro j q hj hq
    rwa [hproc, List.getElem?_set_ne (Ne.symm hj)] at hq
  have hapart : ∀ {j : ℕ} {q : Process} {snap snap' : SnapshotMetadata}, j ≠ i → w.processes[j]? = some q →
    p'.pc.unsaved? = some snap →
      q.pc.unsaved? = some snap' → snap.snapshotId ≠ snap'.snapshotId := by
    intro j q snap snap' hj hq hsnap hsnap'
    rcases hfresh snap hsnap with hold | hnew
    · exact h.distinct i j p q snap snap' (Ne.symm hj) hp hq hold hsnap'
    · exact hnew j q snap' hj hq hsnap'
  refine ⟨⟨fun j q hq => ?_,fun j hj => ?_,hindex.history h.history,hsound,?_⟩,hindex⟩
  · by_cases hji : j = i
    · subst hji
      cases hself.symm.trans hq
      exact hi
    · exact hothers j q hji (hother hji hq)
  · by_cases hji : j = i
    · exact ⟨p',hji ▸ hself⟩
    · have hold : w.lock = some j := by
        rcases hlock with hl | hl | hl
        · exact hl.symm.trans hj
        · rw [hl] at hj
          exact absurd (Option.some.inj hj).symm hji
        · rw [hl] at hj
          cases hj
      obtain ⟨q,hq⟩ := h.holds j hold
      exact ⟨q,by rw [hproc, List.getElem?_set_ne (Ne.symm hji)]; exact hq⟩
  · intro a b pa pb snap snap' hab ha hb hsnap hsnap'
    by_cases hai : a = i
    · subst hai
      cases hself.symm.trans ha
      exact hapart (Ne.symm hab) (hother (Ne.symm hab) hb) hsnap hsnap'
    · by_cases hbi : b = i
      · subst hbi
        cases hself.symm.trans hb
        exact Ne.symm (hapart hai (hother hai ha) hsnap' hsnap)
      · exact h.distinct a b pa pb snap snap' hab (hother hai ha) (hother hbi hb) hsnap hsnap'

/-! ### Steps outside the lock -/

theorem holder_set_of_ne (hl : w.lock ≠ some i) (p' : Process) : (w.set i p').holder = w.holder := by
  unfold holder set
  cases hlock : w.lock with
  | none => rfl
  | some j =>
    have hj : i ≠ j := by
      rintro rfl
      exact hl hlock
    exact List.getElem?_set_ne hj

theorem completed_congr (hh : w'.holder = w.holder) (hheld : w'.held = w.held) : w'.completed = w.completed := by
  unfold completed
  rw [hh, hheld]

theorem settled_congr (hh : w'.holder = w.holder) (hd : w'.disk = w.disk) : w'.settled = w.settled := by
  unfold settled
  rw [hh, hd]

theorem Fits.congr (h : Fits w i p) (hlock : w'.lock = w.lock) (hentries : w'.entries = w.entries)
    (hissued : w.disk.issued ≤ w'.disk.issued) (hheld : w'.held = w.held)
    (hunsaved : ∀ {snap packed}, Written w.settled snap packed → Written w'.settled snap packed) :
    Fits w' i p := by
  refine ⟨hlock ▸ h.lock,h.limit,fun hpc => hentries ▸ h.loaded hpc,fun hpc => ?_,?_,fun hsnap => ?_⟩
  · obtain ⟨hitems,hpending⟩ := h.changed hpc
    exact ⟨hentries ▸ hitems,fun id hid => (hpending id hid).trans_le hissued⟩
  · rw [hheld]
    exact h.last
  · obtain ⟨packed,hw⟩ := h.unsaved hsnap
    exact ⟨packed,hunsaved hw⟩

section
variable (h : Inv w) (hp : w.processes[i]? = some p) (hc : p.pc.critical = false)
include h hp hc

theorem Inv.not_holder : w.lock ≠ some i := by
  intro hl
  have hcrit := (h.fits i p hp).lock.mpr hl
  rw [hc] at hcrit
  cases hcrit

theorem Inv.local (hc' : p'.pc.critical = false)
    (hlimit : ∀ {snap limit}, p'.pc.mutation? = some (.save snap limit) → limit = p'.store.maxSnapshotsPerStrategy)
    (hunsaved : p'.pc.unsaved? = none) : Next w (w.set i p') := by
  have hl := h.not_holder hp hc
  have hholder := holder_set_of_ne hl p'
  have hsettled : (w.set i p').settled = w.settled := settled_congr hholder rfl
  refine h.step hp rfl (Fits.outside hc' hl hlimit fun hsnap => ?_) (fun j q _ hq => ?_) (.inl rfl)
    (.inl ⟨completed_congr hholder rfl,rfl⟩) ?_ ?_
  · rw [hunsaved] at hsnap
    cases hsnap
  · exact (h.fits j q hq).congr rfl rfl le_rfl rfl (fun hw => hsettled ▸ hw)
  · rw [hsettled]
    exact h.sound
  · intro snap hsnap
    rw [hunsaved] at hsnap
    cases hsnap

end

theorem settled_issued (w : World β) : w.settled.issued = w.disk.issued := by
  unfold settled
  split
  · rfl
  · split
    · exact Disk.unlinkAll_issued _ _
    · rfl

theorem settled_write (h : Inv w) {files : Dict (String × SnapshotId) β}
    (hfiles : ∀ m : SnapshotMetadata, m.snapshotId ≠ w.disk.issued →
      Dict.get? files (m.strategyId, m.snapshotId) = w.disk.file? m) (hh : w'.holder = w.holder)
    (hd : w'.disk = { w.disk with files := files, issued := w.disk.issued + 1 }) :
    w'.settled.index = w.settled.index ∧ w'.settled.issued = w.settled.issued + 1 ∧
    (∀ m : SnapshotMetadata, m.snapshotId ≠ w.disk.issued → w'.settled.file? m = w.settled.file? m) ∧
    ∀ m : SnapshotMetadata, m.snapshotId = w.disk.issued → w'.settled.file? m = Dict.get? files
      (m.strategyId, m.snapshotId) := by
  have hissued : w'.settled.issued = w.settled.issued + 1 := by rw [settled_issued, settled_issued, hd]
  refine ⟨?_,hissued,?_⟩
  · unfold settled
    rw [hh, hd]
    split
    · rfl
    · split <;> rfl
  · unfold settled
    rw [hh, hd]
    cases hholder : w.holder with
    | none => exact ⟨hfiles,fun m _ => rfl⟩
    | some p =>
      cases hpc : p.pc with
      | unlinking m =>
        simp only [hpc]
        obtain ⟨i,hl,hp⟩ := Option.bind_eq_some_iff.mp hholder
        have hpending := ((h.fits i p hp).changed hpc).2
        refine ⟨fun m hm => ?_,fun m hm => ?_⟩
        · rw [persist_file?, persist_file?, Disk.file?_unlinkAll, Disk.file?_unlinkAll]
          split
          · rfl
          · exact hfiles m hm
        · rw [persist_file?, Disk.file?_unlinkAll, if_neg]
          · rfl
          · rintro ⟨-,hid⟩
            exact (hpending _ hid).ne hm
      | _ =>
        simp only [hpc]
        exact ⟨hfiles,fun m _ => rfl⟩

theorem Inv.writeSnapshot (h : Inv w) (hp : w.processes[i]? = some p) (hpc : p.pc = .idle) {reason : String} {now : ℤ}
    {snap : SnapshotMetadata} {d : Disk β} (hwrite : writeSnapshot c w.disk state reason fp now = .ok (snap, d)) :
    Next w ({ w with disk := d }.set i { p with pc := .waiting (.save snap p.store.maxSnapshotsPerStrategy) }) := by
  obtain ⟨packed,encoding,checksum,-,hpath,rfl,rfl⟩ := writeSnapshot_ok hwrite
  have hl : w.lock ≠ some i := h.not_holder hp (by rw [hpc]; rfl)
  have hfiles : ∀ m : SnapshotMetadata, m.snapshotId ≠ w.disk.issued →
      Dict.get? (Dict.put w.disk.files (state.strategyId, w.disk.issued) packed) (m.strategyId, m.snapshotId) =
        w.disk.file? m := by
    intro m hm
    rw [Dict.get?_put, if_neg]
    · rfl
    · intro he
      exact hm (Prod.ext_iff.mp he).2.symm
  generalize hnext : World.set _ i _ = w'
  have hholder : w'.holder = w.holder := hnext ▸ holder_set_of_ne hl _
  obtain ⟨hindex,hissued,hold,hnew⟩ := settled_write h hfiles hholder (by rw [← hnext]; rfl)
  have hentries : ∀ sid, w'.settled.entries sid = w.settled.entries sid := fun sid => by
    unfold Disk.entries
    rw [hindex]
  have hids : ∀ {sid m}, m ∈ w.settled.entries sid → m.snapshotId ≠ w.disk.issued := fun hm =>
    ((h.sound.issued hm).trans_eq w.settled_issued).ne
  have hkeep : ∀ {m packed'}, Written w.settled m packed' → Written w'.settled m packed' := by
    intro m packed' hw
    refine hw.transfer (hold m (hw.issued.trans_eq w.settled_issued).ne) (hissued ▸ Nat.le_succ _) fun {sid _} hm => ?_
    exact hw.fresh (hentries sid ▸ hm)
  have hwritten : Written w'.settled
      (state.snapshotMetadata w.disk.issued now (c.size packed) reason fp encoding checksum) packed := by
    refine ⟨?_,hpath,?_,fun {sid _} hm => hids (hentries sid ▸ hm)⟩
    · rw [hnew _ rfl]
      exact (Dict.get?_put ..).trans (if_pos rfl)
    · rw [hissued, settled_issued]
      exact Nat.lt_succ_self _
  refine h.step hp (by rw [← hnext]; rfl) (Fits.outside rfl (by rw [← hnext]; exact hl) ?_ ?_) (fun j q _ hq => ?_)
    (.inl (by rw [← hnext]; rfl)) (.inl ⟨completed_congr hholder (by rw [← hnext]; rfl),by rw [← hnext]; rfl⟩) ?_ ?_
  · rintro snap limit ⟨⟩
    rfl
  · rintro snap ⟨⟩
    exact ⟨packed,hwritten⟩
  · refine (h.fits j q hq).congr ?_ ?_ ?_ ?_ hkeep
    · rw [← hnext]; rfl
    · rw [← hnext]; rfl
    · rw [← hnext]; exact Nat.le_succ _
    · rw [← hnext]; rfl
  · refine h.sound.derive (fun sid => ?_) (hissued ▸ Nat.le_succ _) (fun {sid m} hm => ?_) (fun sid => ?_)
    · rw [hentries]
    · rw [hentries] at hm
      rw [hold m (hids hm)]
      exact h.sound.backed hm
    · rw [hentries]
      exact h.sound.activeOnce sid
  · rintro snap ⟨⟩
    refine .inr fun j q snap' _ hq hsnap' => ?_
    obtain ⟨packed',hw⟩ := (h.fits j q hq).unsaved hsnap'
    exact (hw.issued.trans_eq w.settled_issued).ne'

/-! ### Steps of the holder -/

theorem holder_set (hp : w.processes[i]? = some p) (hl : w.lock = some i) (p' : Process) :
    (w.set i p').holder = some p' :=
  holder_eq hl (List.getElem?_set_self (List.getElem?_eq_some_iff.mp hp).1)

theorem completed_of_none (hh : w.holder = none) : w.completed = w.held := by simp [completed, hh]

variable {m : Mutation} {sid : String} {pending : List SnapshotId}

theorem completed_of_finished (hh : w.holder = some p) (hpc : p.pc = .finished m) : w.completed = w.held := by
  simp [completed, hh, hpc]

theorem completed_of_busy (hh : w.holder = some p) (hpc : ∀ m, p.pc ≠ .finished m) : w.completed = w.held.dropLast := by
  simp only [completed, hh]

theorem settled_of_none (hh : w.holder = none) : w.settled = w.disk := by simp [settled, hh]

theorem settled_of_unlinking (hh : w.holder = some p) (hpc : p.pc = .unlinking m sid pending) :
    w.settled = (persist ⟨p.store,w.disk.unlinkAll sid pending⟩).disk := by simp [settled, hh, hpc]

theorem settled_of_whole (hh : w.holder = some p) (hpc : ∀ m sid pending, p.pc ≠ .unlinking m sid pending) :
    w.settled = w.disk := by simp only [settled, hh]

section
variable (h : Inv w) (hp : w.processes[i]? = some p)
include h hp

theorem Inv.held_eq (hl : w.lock = some i)
    (hpc : ∀ m, p.pc ≠ .finished m) (hm : p.pc.mutation? = some m) : w.held = w.completed ++ [m] := by
  have hfits := h.fits i p hp
  obtain ⟨rest,hheld⟩ := hfits.last (hfits.lock.mpr hl) hm
  rw [completed_of_busy (holder_eq hl hp) hpc, hheld, dropLast_concat]

theorem Inv.advance (hc : p.pc.critical = true) (hproc : w'.processes = w.processes.set i p')
    (hlock : w'.lock = some i ∨ w'.lock = none) (hi : Fits w' i p') (hindex : Extends w w') (hsound : w'.settled.Sound)
    (hkeep : ∀ {j : ℕ} {q : Process} {snap : SnapshotMetadata} {packed : β}, j ≠ i → w.processes[j]? = some q →
      q.pc.unsaved? = some snap → Written w.settled snap packed → Written w'.settled snap packed)
    (hunsaved : ∀ snap, p'.pc.unsaved? = some snap → p.pc.unsaved? = some snap) : Next w w' := by
  have hl := (h.fits i p hp).lock.mp hc
  refine h.step hp hproc hi (fun j q hj hq => ?_) (.inr hlock) hindex hsound fun snap hsnap =>
    .inl (hunsaved snap hsnap)
  have hfits := h.fits j q hq
  have hfree : w'.lock ≠ some j := by
    rcases hlock with hl' | hl' <;> rw [hl']
    · exact fun he => hj (Option.some.inj he).symm
    · simp
  refine Fits.outside (h.outside hl hj hq) hfree hfits.limit fun hsnap => ?_
  obtain ⟨packed,hw⟩ := hfits.unsaved hsnap
  exact ⟨packed,hkeep hj hq hsnap hw⟩

theorem Inv.acquire (hpc : p.pc = .waiting m) (hl : w.lock = none) :
    Next w ({ w with lock := some i, held := w.held ++ [m] }.set i { p with pc := .locked m }) := by
  have hfits := h.fits i p hp
  generalize hnext : World.set _ i _ = w'
  have hholder : w'.holder = some { p with pc := .locked m } := by
    rw [← hnext]
    exact holder_set (w := { w with lock := some i, held := w.held ++ [m] }) hp rfl _
  have hsettled : w'.settled = w.settled := by
    rw [settled_of_whole hholder (by simp), settled_of_none (holder_none hl), ← hnext]
    rfl
  have hunsaved : ∀ snap, (Pc.locked m).unsaved? = some snap → p.pc.unsaved? = some snap := by
    rw [hpc]
    cases m <;> exact fun _ => id
  refine h.step hp (by rw [← hnext]; rfl) ⟨?_,?_,?_,?_,?_,fun hsnap => ?_⟩ (fun j q hj hq => ?_)
    (.inr (.inl (by rw [← hnext]; rfl))) ?_ (hsettled ▸ h.sound) (fun snap hsnap => .inl (hunsaved snap hsnap))
  · rw [← hnext]
    exact ⟨fun _ => rfl,fun _ => rfl⟩
  · intro snap limit hm
    exact hfits.limit (by rw [hpc]; exact hm)
  · rintro _ ⟨⟩
  · rintro _ _ _ ⟨⟩
  · rintro m' - ⟨⟩
    exact ⟨w.held,by rw [← hnext]; rfl⟩
  · rw [hsettled]
    exact hfits.unsaved (hunsaved _ hsnap)
  · have hothers := h.fits j q hq
    have hq' : q.pc.critical = false := by
      by_contra hcrit
      have hlock := hothers.lock.mp (by simpa using hcrit)
      rw [hl] at hlock
      cases hlock
    refine Fits.outside hq' ?_ hothers.limit (fun hsnap => hsettled ▸ hothers.unsaved hsnap)
    rw [← hnext]
    exact fun he => hj (Option.some.inj he).symm
  · refine .inl ⟨?_,by rw [← hnext]; rfl⟩
    rw [completed_of_busy hholder (by simp), completed_of_none (holder_none hl), ← hnext]
    exact dropLast_concat

theorem Inv.release (hpc : p.pc = .finished m) : Next w ({ w with lock := none }.set i { p with pc := .idle }) := by
  have hc : p.pc.critical = true := by rw [hpc]; rfl
  have hholder := holder_eq ((h.fits i p hp).lock.mp hc) hp
  have hsettled : (({ w with lock := none } : World β).set i { p with pc := .idle }).settled = w.settled := by
    rw [settled_of_none (holder_none rfl), settled_of_whole hholder (by simp [hpc])]
    rfl
  refine h.advance hp hc rfl (.inr rfl) (Fits.outside rfl nofun ?_ ?_) ?_ (hsettled ▸ h.sound)
    (fun _ _ _ hw => hsettled ▸ hw) nofun
  · rintro _ _ ⟨⟩
  · rintro _ ⟨⟩
  refine .inl ⟨?_,rfl⟩
  rw [completed_of_none (holder_none rfl), completed_of_finished hholder hpc]
  rfl

/-- A step of the holder that keeps the lock. -/
theorem Inv.stay (hw : { w with disk := w'.disk }.set i p' = w') (hl : w.lock = some i)
    (hpc : p.pc.mutation? = some m ∧ ∀ m, p.pc ≠ .finished m) (hpc' : p'.pc.critical = true ∧ p'.pc.mutation? = some m)
    (hlimit : p'.store.maxSnapshotsPerStrategy = p.store.maxSnapshotsPerStrategy)
    (hloaded : ∀ {m}, p'.pc = .loaded m → p'.store.snapshots = Registry.load w'.entries)
    (hchanged : ∀ {m sid pending}, p'.pc = .unlinking m sid pending → p'.store.snapshots.items = m.apply w'.entries ∧
      ∀ id ∈ pending, id < w'.disk.issued)
    (hindex : (∀ m, p'.pc ≠ .finished m) ∧ w'.entries = w.entries ∨ p'.pc = .finished m ∧
      w'.entries = m.apply w.entries)
    (hunsaved : ∀ snap, p'.pc.unsaved? = some snap → p.pc.unsaved? = some snap)
    (hsettled : w'.holder = some p' → w'.settled = w.settled ∨ p'.pc.unsaved? = none ∧ w'.settled.Sound ∧
      ∀ {j : ℕ} {q : Process} {snap : SnapshotMetadata} {packed : β}, j ≠ i → w.processes[j]? = some q →
        q.pc.unsaved? = some snap → Written w.settled snap packed → Written w'.settled snap packed) :
    Next w w' := by
  have hfits := h.fits i p hp
  have hc := hfits.lock.mpr hl
  have hl' : w'.lock = some i := by rw [← hw]; exact hl
  have hheld : w'.held = w.held := by rw [← hw]; rfl
  have hholder : w'.holder = some p' := by
    rw [← hw]
    exact holder_set (w := { w with disk := w'.disk }) hp hl p'
  have hcarried : ∀ {m'}, p'.pc.mutation? = some m' → p.pc.mutation? = some m' := fun hm =>
    hpc.1.trans (hpc'.2.symm.trans hm)
  have hextends : Extends w w' := by
    refine hindex.imp (fun hsame => ⟨?_,hsame.2⟩) fun hdone => ⟨m,?_,hdone.2⟩
    · rw [completed_of_busy hholder hsame.1, completed_of_busy (holder_eq hl hp) hpc.2, hheld]
    · rw [completed_of_finished hholder hdone.1, hheld]
      exact h.held_eq hp hl hpc.2 hpc.1
  have hi : (∀ {snap}, p'.pc.unsaved? = some snap → ∃ packed, Written w'.settled snap packed) → Fits w' i p' :=
    fun hwritten => ⟨⟨fun _ => hl',fun _ => hpc'.1⟩,fun hm => (hfits.limit (hcarried hm)).trans hlimit.symm,
      hloaded,hchanged,
      fun _ hm => by rw [hheld]; exact hfits.last hc (hcarried hm),hwritten⟩
  rcases hsettled hholder with hsame | ⟨hnone,hsound,hkeep⟩
  · refine h.advance hp hc (by rw [← hw]; rfl) (.inl hl') (hi fun hsnap => ?_) hextends (hsame ▸ h.sound)
      (fun _ _ _ hw => hsame ▸ hw) hunsaved
    rw [hsame]
    exact hfits.unsaved (hunsaved _ hsnap)
  · refine h.advance hp hc (by rw [← hw]; rfl) (.inl hl') (hi fun hsnap => ?_) hextends hsound hkeep hunsaved
    cases hnone.symm.trans hsnap

theorem Inv.load (hpc : p.pc = .locked m) : Next w (w.set i ⟨(reload ⟨p.store,w.disk⟩).store,.loaded m⟩) := by
  have hl := (h.fits i p hp).lock.mp (by rw [hpc]; rfl)
  have hwhole : w.settled = w.disk := settled_of_whole (holder_eq hl hp) (by simp [hpc])
  refine h.stay hp rfl hl (by simp [hpc, Pc.mutation?]) ⟨rfl,rfl⟩ (reload_limit (x := ⟨p.store,w.disk⟩))
    (fun _ => ?_) nofun
    (.inl ⟨nofun,rfl⟩) ?_ fun hnext => .inl ?_
  · exact reload_snapshots (x := ⟨p.store,w.disk⟩) (hwhole ▸ h.sound)
  · rw [hpc]
    cases m <;> exact fun _ => id
  · rw [settled_of_whole hnext nofun, hwhole]
    rfl

theorem Inv.change (hpc : p.pc = .loaded m) {store : StateStore} (hitems : store.snapshots.items = m.apply w.entries)
    (hlimit : store.maxSnapshotsPerStrategy = p.store.maxSnapshotsPerStrategy)
    (hpending : ∀ id ∈ pending, id < w.disk.issued)
    (hsound : (persist ⟨store,w.disk.unlinkAll sid pending⟩).disk.Sound)
    (hkeep : ∀ {snap : SnapshotMetadata} {packed : β},
      (∀ new limit, m = .save new limit → snap.snapshotId ≠ new.snapshotId) →
      Written w.disk snap packed →
      Written (persist ⟨store,w.disk.unlinkAll sid pending⟩).disk snap packed) :
    Next w (w.set i ⟨store,.unlinking m sid pending⟩) := by
  have hl := (h.fits i p hp).lock.mp (by rw [hpc]; rfl)
  refine h.stay hp rfl hl (by simp [hpc, Pc.mutation?]) ⟨rfl,rfl⟩ hlimit nofun ?_
    (.inl ⟨nofun,rfl⟩) nofun fun hnext => .inr ⟨rfl,?_⟩
  · rintro _ _ _ ⟨⟩
    exact ⟨hitems,hpending⟩
  rw [settled_of_unlinking hnext rfl, settled_of_whole (holder_eq hl hp) (by simp [hpc])]
  refine ⟨hsound,fun {j q snap _} hj hq hsnap => hkeep fun new limit hm => ?_⟩
  exact h.distinct j i q p snap new hj hq hp hsnap (by rw [hpc, hm]; rfl)

theorem Inv.giveUp (hpc : p.pc = .loaded (.delete id)) (hd : p.store.snapshots.delete id = none) :
    Next w (w.set i (p.mutate (.delete id))) := by
  have hfits := h.fits i p hp
  have hl := hfits.lock.mp (by rw [hpc]; rfl)
  have hmutate : p.mutate (.delete id) = ⟨p.store,.finished (.delete id)⟩ := by simp only [Process.mutate, hd]
  have hsame : (Mutation.delete id).apply w.entries = w.entries := by simp only [Mutation.apply, ← hfits.loaded hpc, hd]
  rw [hmutate]
  refine h.stay hp rfl hl (by simp [hpc, Pc.mutation?])
    ⟨rfl,rfl⟩ rfl nofun nofun (.inr ⟨rfl,hsame.symm⟩) nofun fun hnext => .inl ?_
  rw [settled_of_whole hnext nofun, settled_of_whole (holder_eq hl hp) (by simp [hpc])]
  rfl

/-- A process that holds the lock changes the copy that it has just loaded. -/
theorem Inv.mutate (hpc : p.pc = .loaded m) : Next w (w.set i (p.mutate m)) := by
  have hfits := h.fits i p hp
  have hl := hfits.lock.mp (by rw [hpc]; rfl)
  have hwhole : w.settled = w.disk := settled_of_whole (holder_eq hl hp) (by simp [hpc])
  have hsound : w.disk.Sound := hwhole ▸ h.sound
  have hloaded := hfits.loaded hpc
  -- what the process holds is what the atomic call would reload
  have hreload : (reload ⟨p.store,w.disk⟩).store.snapshots = p.store.snapshots := by
    rw [reload_snapshots hsound, hloaded]
    rfl
  have hof : ∀ sid, p.store.snapshots.of sid = w.disk.entries sid := fun sid =>
    hreload ▸ of_reload (x := ⟨p.store,w.disk⟩) hsound sid
  cases m with
  | save snap limit =>
    obtain rfl : limit = _ := hfits.limit (by rw [hpc]; rfl)
    obtain ⟨packed,hw⟩ := hfits.unsaved (show p.pc.unsaved? = some snap by rw [hpc]; rfl)
    rw [hwhole] at hw
    have hcommit : (commit ⟨p.store,w.disk⟩ snap).disk = (persist ⟨{ p.store with
        snapshots := (p.store.snapshots.save snap p.store.maxSnapshotsPerStrategy).1
        barsSinceLastSave := Dict.put p.store.barsSinceLastSave snap.strategyId 0 },
        w.disk.unlinkAll snap.strategyId
          ((p.store.snapshots.save snap p.store.maxSnapshotsPerStrategy).2.map SnapshotMetadata.snapshotId)⟩).disk := by
      unfold commit register persist
      simp only [hreload, reload_limit, reload_disk]
    refine h.change hp hpc ?_ rfl ?_ (hcommit ▸ sound_commit hsound hw) ?_
    · rw [Mutation.apply, ← hloaded]
      rfl
    · intro id hid
      change id ∈ (p.store.snapshots.save snap _).2.map _ at hid
      rw [Registry.save_stale, hof] at hid
      rcases Registry.stale_afterSave hid with rfl | ⟨m,hm,rfl⟩
      · exact hw.issued
      · exact hsound.issued hm
    · intro snap' packed' hne hw'
      exact hcommit ▸ Written.commit hsound hw' (hne snap _ rfl)
  | delete id =>
    cases hd : p.store.snapshots.delete id with
    | none => exact h.giveUp hp hpc hd
    | some r =>
      obtain ⟨owner,snapshots⟩ := r
      have hknown : (reload ⟨p.store,w.disk⟩).store.snapshots.delete id = some (owner, snapshots) := by rw [hreload, hd]
      have hdelete : (deleteSnapshot ⟨p.store,w.disk⟩ id).2.disk =
          (persist ⟨{ p.store with snapshots := snapshots },w.disk.unlinkAll owner [id]⟩).disk := by
        rw [deleteSnapshot_known hknown]
        rfl
      have hmutate : p.mutate (.delete id) =
        ⟨{ p.store with snapshots := snapshots },.unlinking (.delete id) owner [id]⟩ := by
        simp only [Process.mutate, hd]
      rw [hmutate]
      refine h.change hp hpc ?_ rfl ?_ (hdelete ▸ sound_deleteSnapshot hsound id) ?_
      · simp only [Mutation.apply, ← hloaded, hd]
      · intro id' hid'
        obtain ⟨⟨m,hm,rfl⟩,-⟩ := Registry.delete_eq_some hd
        rw [mem_singleton.mp hid']
        exact hsound.issued (hof owner ▸ hm)
      · intro snap packed _ hw
        exact hdelete ▸ Written.deleteSnapshot hsound hw hknown
  | markInvalid sid since =>
    have hmark : (markInvalid ⟨p.store,w.disk⟩ sid since).disk = (persist
        ⟨{ p.store with snapshots := p.store.snapshots.markInvalid sid since },w.disk.unlinkAll sid []⟩).disk := by
      unfold markInvalid persist
      simp only [hreload, reload_disk]
      rfl
    refine h.change hp hpc ?_ rfl (fun _ hid => absurd hid not_mem_nil) (hmark ▸ sound_markInvalid hsound sid since) ?_
    · rw [Mutation.apply, ← hloaded]
    · intro snap packed _ hw
      exact hmark ▸ Written.markInvalid hsound hw sid since

theorem Inv.unlink (hpc : p.pc = .unlinking m sid (id :: pending)) :
    Next w ({ w with disk := w.disk.unlink sid id }.set i { p with pc := .unlinking m sid pending }) := by
  have hfits := h.fits i p hp
  have hl := hfits.lock.mp (by rw [hpc]; rfl)
  obtain ⟨hitems,hpending⟩ := hfits.changed hpc
  refine h.stay hp rfl hl (by simp [hpc, Pc.mutation?]) ⟨rfl,rfl⟩ rfl nofun ?_ (.inl ⟨nofun,rfl⟩) nofun fun hnext =>
    .inl ?_
  · rintro _ _ _ ⟨⟩
    exact ⟨hitems,fun id' hid' => hpending id' (mem_cons_of_mem _ hid')⟩
  · rw [settled_of_unlinking hnext rfl, settled_of_unlinking (holder_eq hl hp) hpc]
    rfl

theorem Inv.write (hpc : p.pc = .unlinking m sid []) : Next w ({ w with disk := (persist ⟨p.store,w.disk⟩).disk }.set i
      ⟨(persist ⟨p.store,w.disk⟩).store,.finished m⟩) := by
  have hfits := h.fits i p hp
  have hl := hfits.lock.mp (by rw [hpc]; rfl)
  refine h.stay hp rfl hl (by simp [hpc, Pc.mutation?])
    ⟨rfl,rfl⟩ rfl nofun nofun (.inr ⟨rfl,(hfits.changed hpc).1⟩) nofun
    fun hnext => .inl ?_
  rw [settled_of_whole hnext nofun, settled_of_unlinking (holder_eq hl hp) hpc]
  rfl

end

/-! ### Every interleaving -/

theorem Inv.proceed (h : Inv w) (hp : w.processes[i]? = some p) : Next w (w.proceed i p) := by
  unfold World.proceed
  split <;> rename_i hpc
  · exact .refl h
  · refine h.local hp (by rw [hpc]; rfl) ?_ ?_ ?_
    all_goals unfold Process.finishRead; split
    all_goals first | rfl | rintro _ _ ⟨⟩
  · split
    · exact h.acquire hp hpc ‹_›
    · exact .refl h
  · exact h.load hp hpc
  · exact h.mutate hp hpc
  · exact h.unlink hp hpc
  · exact h.write hp hpc
  · exact h.release hp hpc

theorem Inv.spawn (h : Inv w) (store : StateStore) : Next w { w with processes := w.processes ++ [⟨store,.idle⟩] } := by
  have hold : ∀ {j : ℕ} {q : Process}, w.processes[j]? = some q → (w.processes ++ [⟨store,.idle⟩])[j]? = some q :=
    fun hq => (List.getElem?_append_left (List.getElem?_eq_some_iff.mp hq).1).trans hq
  have hcases : ∀ {j : ℕ} {q : Process}, (w.processes ++ [⟨store,.idle⟩])[j]? = some q →
      w.processes[j]? = some q ∨ (w.processes[j]? = none ∧ q = ⟨store,.idle⟩) := by
    intro j q hq
    cases hj : w.processes[j]? with
    | some => exact .inl ((hold hj).symm.trans hq)
    | none =>
      have hlen := List.getElem?_eq_none_iff.mp hj
      rw [List.getElem?_append_right hlen] at hq
      exact .inr ⟨rfl,by simpa using (mem_of_getElem? hq)⟩
  have hholder : World.holder { w with processes := w.processes ++ [⟨store,.idle⟩] } = w.holder := by
    cases hl : w.lock with
    | none => exact (holder_none rfl).trans (holder_none hl).symm
    | some i =>
      obtain ⟨p,hp⟩ := h.holds i hl
      exact (holder_eq rfl (hold hp)).trans (holder_eq hl hp).symm
  have hsettled := settled_congr hholder rfl
  have hindex : Extends w { w with processes := w.processes ++ [⟨store,.idle⟩] } :=
    .inl ⟨completed_congr hholder rfl,rfl⟩
  refine ⟨⟨fun j q hq => ?_,fun j hj => ?_,hindex.history h.history,hsettled ▸ h.sound,?_⟩,hindex⟩
  · rcases hcases hq with hq | ⟨hnone,rfl⟩
    · exact (h.fits j q hq).congr rfl rfl le_rfl rfl (fun hw => hsettled ▸ hw)
    · refine Fits.outside rfl (fun hl => ?_) ?_ ?_
      · obtain ⟨p,hp⟩ := h.holds j hl
        cases hnone.symm.trans hp
      · rintro _ _ ⟨⟩
      · rintro _ ⟨⟩
  · obtain ⟨q,hq⟩ := h.holds j hj
    exact ⟨q,hold hq⟩
  · intro a b pa pb snap snap' hab ha hb hsnap hsnap'
    rcases hcases ha with ha | ⟨-,rfl⟩
    · rcases hcases hb with hb | ⟨-,rfl⟩
      · exact h.distinct a b pa pb snap snap' hab ha hb hsnap hsnap'
      · cases hsnap'
    · cases hsnap

theorem Inv.startSave (h : Inv w) (c : Codec σ β) (hp : w.processes[i]? = some p) (state : StrategyState σ)
    (reason : String) (failedBar : Bool) (fp : Option String) (now : ℤ) :
    Next w (w.act c i p (.startSave state reason failedBar fp now)) := by
  simp only [World.act]
  split <;> rename_i hpc
  · split <;> rename_i hstart
    · refine h.local hp (by rw [hpc]; rfl) (by rw [hpc]; rfl) ?_ (by rw [hpc]; rfl)
      rw [hpc]
      rintro _ _ ⟨⟩
    · exact .refl h
    · exact h.writeSnapshot hp hpc (startSave_ready hstart)
  · exact .refl h

theorem Inv.act (h : Inv w) (c : Codec σ β) (hp : w.processes[i]? = some p) (a : Act σ) : Next w (w.act c i p a) := by
  cases a with
  | proceed => exact h.proceed hp
  | startSave state reason failedBar fp now => exact h.startSave c hp state reason failedBar fp now
  | startDelete | startMarkInvalid | startRead =>
    simp only [World.act]
    split <;> rename_i hpc
    · refine h.local hp (by rw [hpc]; rfl) rfl ?_ rfl
      rintro _ _ ⟨⟩
    · exact .refl h

theorem Inv.next (h : Inv w) (c : Codec σ β) (a : Action σ) : Next w (w.step c a) := by
  cases a with
  | spawn => exact h.spawn _
  | act _ a =>
    simp only [World.step]
    split
    · exact .refl h
    · exact h.act c ‹_› a

theorem inv_start : Inv ({} : World β) :=
  ⟨fun _ _ h => absurd h nofun,fun _ h => absurd h nofun,rfl,Disk.sound_empty,fun _ _ _ _ _ _ _ h => absurd h nofun⟩

theorem inv_run (c : Codec σ β) (ops : List (Action σ)) : Inv (run (World.step c) {} ops) :=
  run_invariant (fun _ a h => (h.next c a).inv) inv_start ops

theorem completed_isPrefix (c : Codec σ β) {w : World β} (h : Inv w) (ops : List (Action σ)) :
    w.completed <+: (run (World.step c) w ops).completed := by
  refine run_rel (I := Inv) (R := fun w w' => w.completed <+: w'.completed) (fun _ => prefix_refl _)
    (fun _ _ _ => List.IsPrefix.trans) (fun w a hw => ?_) (fun w a hw => ?_) h ops
  · exact (hw.next c a).inv
  · exact (hw.next c a).index.isPrefix

/-- In every interleaving the index file holds what the completed mutations make of the
empty index, one at a time in the order in which they held the lock, and a completed
mutation stays so. -/
theorem index_sequential (c : Codec σ β) (ops more : List (Action σ)) :
    (run (World.step c) {} ops).entries = (run (World.step c) {} ops).completed.foldl Mutation.apply [] ∧
      (run (World.step c) {} ops).completed <+: (run (World.step c) {} (ops ++ more)).completed := by
  refine ⟨(inv_run c ops).history,?_⟩
  rw [run_append]
  exact completed_isPrefix c (inv_run c ops) more

end World
end OpenPine.State
