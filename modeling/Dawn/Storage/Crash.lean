import Dawn.Storage.Recovery

/-!
# The disk manager after a crash

A crash leaves the `.db` file with every page that was written, and the `.mtd` file as the last clean
shutdown left it. The scan of the `.db` file was meant to make the meta data irrelevant to the page
ids, but `max_ava_pgid_` is still taken from there. When the file has more pages than are recorded,
`alloc_page` fills up the free ids from the recorded bound, and hands out ids that are in use.
-/

namespace Dawn.DiskManager

/-- The number of available page ids that the `.mtd` file of the database `name` records. -/
def recordedMaxAvaPgid (fs : FileSystem) (name : FileName) : ℤ :=
  match fs (mtdFileName name) with
  | none => 0
  | some f => Bytes.i32 (fun i => f.byte i.toNat)
      (4 + (dbFileName name).length + 1 + 4 + (logFileName name).length + 1)

/-- The number of pages in the `.db` file of the database `name`. -/
def dbFilePages (fs : FileSystem) (name : FileName) : ℕ :=
  match fs (dbFileName name) with
  | none => 0
  | some f => f.size / 4096

/-- A call that changes the page ids. -/
inductive AllocOp where
  | getNewPage
  | freePage (id : ℤ)

/-- The step of such a call, whether its write succeeds or not. -/
inductive AllocStep : DiskManager → AllocOp → DiskManager → Prop
  | getNewPage {d d' : DiskManager} {id : ℤ} (h : d.getNewPage = some (id, d')) :
    AllocStep d .getNewPage d'
  | freePage {d : DiskManager} {id : ℤ} : AllocStep d (.freePage id) (d.freePage id).2

/-- A call, or a clean shutdown and a new start. -/
inductive UseOp where
  | call (op : AllocOp)
  | restart (u : Uninit) (faults : List Bool)

/-- The step of a call or a restart. The meta data are written at a clean shutdown, and a database that
does not open is not used. -/
inductive UseStep (name : FileName) : DiskManager → UseOp → DiskManager → Prop
  | call {d d' : DiskManager} {op : AllocOp} (h : AllocStep d op d') : UseStep name d (.call op) d'
  | restart {d : DiskManager} {u : Uninit} {faults : List Bool} (hw : d.writeMetaData.1 = true)
    (hs : (openDb d.shutdown.fs name u faults).status = true) :
    UseStep name d (.restart u faults) (openDb d.shutdown.fs name u faults)

section Crash

variable {name : FileName} {fs : FileSystem} {d d' : DiskManager} {f : File} {n : ℕ}
  {recorded id : ℤ} {u : Uninit}

theorem Running.useStep (h0 : 0 ∉ name) (hfit : Fits (dbFileName name) (logFileName name))
    (h : Running name d f n recorded) {op : UseOp} (hs : UseStep name d op d') :
    ∃ f' n' recorded', Running name d' f' n' recorded' := by
  cases hs with
  | call hop =>
    cases hop with
    | getNewPage hget =>
      obtain ⟨id, q, f', n', ha, hrun⟩ := h.getNewPage
      obtain ⟨-, rfl⟩ := some_mk_inj (hget.symm.trans ha)
      exact ⟨f', n', recorded, hrun⟩
    | freePage =>
      obtain ⟨f', hrun⟩ := h.freePage _
      exact ⟨f', n, recorded, hrun⟩
  | restart hw hopen =>
    rcases h.restart h0 hfit hw _ _ with ⟨-, hrun, -⟩ | ⟨hclosed, -⟩
    · exact ⟨f, n, _, hrun⟩
    · rw [hclosed.2] at hopen
      exact absurd hopen Bool.false_ne_true

theorem Running.recordedMaxAvaPgid_eq (h : Running name d f n recorded) : recordedMaxAvaPgid d.fs name = recorded := by
  obtain ⟨metaFile, c, hm, hmtd⟩ := h.mtdFile
  unfold recordedMaxAvaPgid
  simp only [hm]
  exact hmtd.data.maxAvaPgid_eq

theorem Running.dbFilePages_eq (h : Running name d f n recorded) : dbFilePages d.fs name = n := by
  unfold dbFilePages
  simp only [h.dbFile, h.size_eq]
  omega

theorem Running.crash (h0 : 0 ∉ name) (hfit : Fits (dbFileName name) (logFileName name))
    (h : Running name d f n recorded) (u : Uninit) (faults : List Bool) :
    (∃ catalogPageId, Opened d.fs name f n recorded catalogPageId u (openDb d.fs name u faults) ∧
      (faults = [] → (openDb d.fs name u faults).faults = [])) ∨
    (Closed (openDb d.fs name u faults) ∧ faults ≠ []) := by
  obtain ⟨metaFile, c, hm, hmtd⟩ := h.mtdFile
  obtain ⟨logFile, hlog⟩ := h.logFile
  have hn := h.pages_le
  rcases openDb_spec h0 hfit hm hmtd hlog h.dbFile h.size_eq (by omega) u faults with hopen | hclosed
  · exact Or.inl ⟨c, hopen⟩
  · exact Or.inr hclosed

/-! ## Enough ids are recorded -/

/-- Nothing is open, or the page ids are partitioned. -/
def Safe (d : DiskManager) : Prop :=
  d.dbOpen = false ∨ IdInv d

theorem freePage_dbOpen (d : DiskManager) (id : ℤ) : (d.freePage id).2.dbOpen = d.dbOpen := by
  unfold freePage
  split_ifs
  · rfl
  · rcases dbWrite_cases d (wrap32 (id * pageSize)) 1 fun _ => statusFree with
      ⟨f, -, -, -, -, -, hw⟩ | hw
    · rw [hw]
      exact (sameStreams_releasePgid _ _).2.2.2.2.2.1
    · rw [hw]
      rfl
  · rfl

theorem Safe.getNewPage (h : Safe d) (hget : d.getNewPage = some (id, d')) :
    Safe d' ∧ (0 ≤ id → id ∉ d.allocedPgid) := by
  by_cases ho : d.dbOpen = true
  · have hids : IdInv d := h.resolve_left (by simp [ho])
    obtain ⟨hr, -, hnew, -⟩ := hids.refill
    obtain ⟨least, hleast, ⟨g, -, -, -, hlt, ha⟩ | ha⟩ := allocPage_cases hids ho statusExist
    · obtain ⟨rfl, rfl⟩ := some_mk_inj (hget.symm.trans ha)
      exact ⟨Or.inr (hr.allocated hleast.1 hlt), fun _ => hnew _ hleast.1⟩
    · obtain ⟨rfl, rfl⟩ := some_mk_inj (hget.symm.trans ha)
      exact ⟨Or.inr (hr.notAllocated _), by omega⟩
  · have hclosed : d.dbOpen = false := by simpa using ho
    have ha := allocPage_of_closed hclosed statusExist
    obtain ⟨rfl, rfl⟩ := some_mk_inj (hget.symm.trans ha)
    exact ⟨Or.inl hclosed, by omega⟩

theorem Safe.step (h : Safe d) {op : AllocOp} (hs : AllocStep d op d') : Safe d' := by
  cases hs with
  | getNewPage hget => exact (h.getNewPage hget).1
  | freePage =>
    rcases h with hclosed | hids
    · exact Or.inl ((freePage_dbOpen _ _).trans hclosed)
    · exact Or.inr (hids.freePage _)

theorem Running.safe_crash (h0 : 0 ∉ name) (hfit : Fits (dbFileName name) (logFileName name))
    (h : Running name d f n recorded) (hle : (n : ℤ) ≤ recorded) (u : Uninit) (faults : List Bool) :
    Safe (openDb d.fs name u faults) := by
  rcases h.crash h0 hfit u faults with ⟨c, hopen, -⟩ | ⟨hclosed, -⟩
  · exact Or.inr (hopen.idInv h.pages_le hle h.recorded_pos h.recorded_le)
  · exact Or.inl hclosed.1

/-! ## Too few ids are recorded -/

/-- All pages of the `.db` file are accounted for, but they are more than `max_ava_pgid_`. Reads and
writes succeed. -/
structure Short (d : DiskManager) (f : File) (n : ℕ) : Prop where
  dbOpen_eq : d.dbOpen = true
  dbFile : d.fs d.dbName = some f
  dbFail_eq : d.dbFail = false
  faults_eq : d.faults = []
  pos : 0 < d.maxAvaPgid
  short : d.maxAvaPgid < n
  pages_le : n ≤ 2^19
  mem_iff : ∀ id, id ∈ d.allocedPgid ∨ id ∈ d.freePgid ↔ 0 ≤ id ∧ id < n

theorem Running.short_crash (h0 : 0 ∉ name) (hfit : Fits (dbFileName name) (logFileName name))
    (h : Running name d f n recorded) (hlt : recorded < n) (u : Uninit) :
    Short (openDb d.fs name u []) f n ∧ (openDb d.fs name u []).maxAvaPgid = recorded ∧
      (openDb d.fs name u []).freePgid = goneIds f n := by
  rcases h.crash h0 hfit u [] with ⟨c, ho, hq⟩ | ⟨-, hne⟩
  · refine ⟨⟨ho.dbOpen_eq, ?_, ho.dbFail_eq, hq rfl, ?_, ?_, h.pages_le, fun id => ?_⟩,
      ho.maxAvaPgid_eq, ?_⟩
    · rw [ho.fs_eq, ho.dbName_eq, h.dbFile]
    · rw [ho.maxAvaPgid_eq]
      exact h.recorded_pos
    · rw [ho.maxAvaPgid_eq]
      exact hlt
    · rw [ho.allocedPgid_eq, ho.freePgid_eq, Finset.mem_union, mem_existIds, mem_goneIds, mem_idRange]
      constructor
      · rintro (⟨k, hk, -, rfl⟩ | ⟨k, hk, -, rfl⟩ | hid) <;> omega
      · rintro ⟨h0, hid⟩
        by_cases hex : Exists f id.toNat
        · exact Or.inl ⟨id.toNat, by omega, hex, by omega⟩
        · exact Or.inr (Or.inl ⟨id.toNat, by omega, hex, by omega⟩)
    · have hnone : idRange n recorded = ∅ :=
        Finset.eq_empty_of_forall_notMem fun id hid => by
          have := mem_idRange.mp hid
          omega
      rw [ho.freePgid_eq, hnone, Finset.union_empty]
  · exact absurd rfl hne

theorem Short.getNewPage_of_nonempty (h : Short d f n) (hne : d.freePgid.Nonempty) :
    ∃ id d' f', d.getNewPage = some (id, d') ∧ Short d' f' n ∧ d'.maxAvaPgid = d.maxAvaPgid ∧
      d'.freePgid.card < d.freePgid.card := by
  have hrefill : d.refill = d := by
    unfold refill
    rw [if_neg hne.ne_empty]
  have hleast := Finset.isLeast_min' d.freePgid hne
  generalize d.freePgid.min' hne = id at hleast
  have hpages := h.pages_le
  obtain ⟨h0, hlt⟩ := (h.mem_iff id).mp (Or.inr hleast.1)
  have ha := allocPage_of_good h.dbOpen_eq h.dbFile h.dbFail_eq h.faults_eq
    (by rw [hrefill]; exact hleast) h0 (by omega) statusExist
  rw [hrefill] at ha
  refine ⟨id, _, _, ha, ⟨h.dbOpen_eq, Function.update_self _ _ _, h.dbFail_eq, ?_, h.pos, h.short,
    h.pages_le, fun j => ?_⟩, rfl, Finset.card_erase_lt_of_mem hleast.1⟩
  · simp [allocated, h.faults_eq]
  · simp only [allocated, Finset.mem_insert, Finset.mem_erase]
    rw [← h.mem_iff j]
    by_cases hj : j = id
    · subst hj
      simpa using Or.inr hleast.1
    · simp [hj]

theorem Short.getNewPage_of_empty (h : Short d f n) (he : d.freePgid = ∅) :
    d.maxAvaPgid ∈ d.allocedPgid ∧ ∃ d', d.getNewPage = some (d.maxAvaPgid, d') := by
  have hpos := h.pos
  have hshort := h.short
  have hpages := h.pages_le
  have hw : wrap32 (d.maxAvaPgid * 2) = d.maxAvaPgid * 2 := wrap32_of_isI32 ⟨by omega, by omega⟩
  have hfree : d.refill.freePgid = idRange d.maxAvaPgid (d.maxAvaPgid * 2) := by
    unfold refill
    rw [if_pos he]
    simp only [he, hw, Finset.empty_union]
  have hleast : IsLeast (d.refill.freePgid : Set ℤ) d.maxAvaPgid := by
    rw [hfree]
    exact ⟨mem_idRange.mpr ⟨le_rfl, by omega⟩, fun j hj => (mem_idRange.mp hj).1⟩
  refine ⟨?_, _, allocPage_of_good h.dbOpen_eq h.dbFile h.dbFail_eq h.faults_eq hleast hpos.le (by omega) statusExist⟩
  have hmem := (h.mem_iff d.maxAvaPgid).mpr ⟨hpos.le, hshort⟩
  simpa [he] using hmem

theorem Short.exists_double (h : Short d f n) :
    ∃ ops d' id d'', Trace AllocStep d ops d' ∧ d'.getNewPage = some (id, d'') ∧ 0 ≤ id ∧ id ∈ d'.allocedPgid := by
  -- By induction on the number of free ids.
  induction hcard : d.freePgid.card using Nat.strong_induction_on generalizing d f with
  | _ k ih =>
    subst hcard
    rcases Finset.eq_empty_or_nonempty d.freePgid with he | hne
    · obtain ⟨hmem, d', hget⟩ := h.getNewPage_of_empty he
      exact ⟨[], d, _, d', .nil d, hget, h.pos.le, hmem⟩
    · obtain ⟨id, q, f', hget, hq, -, hcard⟩ := h.getNewPage_of_nonempty hne
      obtain ⟨ops, d', id', d'', ht, hget', h0, hmem⟩ := ih _ hcard hq rfl
      exact ⟨_, d', id', d'', .cons (.getNewPage hget) ht, hget', h0, hmem⟩

/-- After a crash, `get_new_page` never returns a page id that is allocated, whatever is called and
whatever reads and writes fail, exactly when the `.db` file has no more pages than the number of
available page ids that the `.mtd` file records. -/
theorem crash_safe_iff {d₀ : DiskManager} {faults : List Bool} (h0 : 0 ∉ name)
    (hfit : Fits (dbFileName name) (logFileName name)) (hc : create fs name u faults = some d₀)
    (hs : d₀.status = true) {ops : List UseOp} (ht : Trace (UseStep name) d₀ ops d) :
    (∀ u' faults' ops' d' id d'', Trace AllocStep (openDb d.fs name u' faults') ops' d' →
      d'.getNewPage = some (id, d'') → 0 ≤ id → id ∉ d'.allocedPgid) ↔
    (dbFilePages d.fs name : ℤ) ≤ recordedMaxAvaPgid d.fs name := by
  obtain ⟨f, n, recorded, hrun⟩ : ∃ f n recorded, Running name d f n recorded := by
    refine ht.invariant (P := fun d => ∃ f n recorded, Running name d f n recorded)
      (fun _ _ _ ⟨_, _, _, hi⟩ hstep => hi.useStep h0 hfit hstep) ?_
    obtain ⟨f, n, -, hr, -⟩ := running_create hfit hc hs
    exact ⟨f, n, 100, hr⟩
  rw [hrun.dbFilePages_eq, hrun.recordedMaxAvaPgid_eq]
  constructor
  · intro hsafe
    by_contra hlt
    obtain ⟨hshort, -, -⟩ := hrun.short_crash h0 hfit (not_le.mp hlt) u
    obtain ⟨ops', d', id, d'', ht', hget, hid, hmem⟩ := hshort.exists_double
    exact hsafe u [] ops' d' id d'' ht' hget hid hmem
  · intro hle u' faults' ops' d' id d'' ht' hget
    have hsafe := ht'.invariant (P := Safe) (fun _ _ _ hi hstep => hi.step hstep)
      (hrun.safe_crash h0 hfit hle u' faults')
    exact (hsafe.getNewPage hget).2

/-- A page is allocated and freed, the database is restarted, and then it can crash. -/
theorem crash_safe_iff_fresh : ∃ d₀ id d, create (fun _ => none) [100] Uninit.zero [] = some d₀ ∧
    Trace (UseStep [100]) d₀ [.call .getNewPage, .call (.freePage id), .restart Uninit.zero []] d ∧
    ((∀ u' faults' ops' d' id d'', Trace AllocStep (openDb d.fs [100] u' faults') ops' d' →
      d'.getNewPage = some (id, d'') → 0 ≤ id → id ∉ d'.allocedPgid) ↔
    (dbFilePages d.fs [100] : ℤ) ≤ recordedMaxAvaPgid d.fs [100]) := by
  have hfit : Fits (dbFileName [100]) (logFileName [100]) := by unfold Fits; decide
  obtain ⟨d₀, id, d₁, hc, hs, hget, -, -, -, hsound⟩ := exists_new_and_freed
  have hsound' := hsound
  obtain ⟨f, n, recorded, hr, he⟩ := hsound'
  obtain ⟨metaFile, -, hmeta, -⟩ := hr.mtdFile
  have ht : Trace (UseStep [100]) d₀ [.call .getNewPage, .call (.freePage id), .restart Uninit.zero []] _ :=
    .cons (.call (.getNewPage hget)) (.cons (.call .freePage) (.single (.restart
      (writeMetaData_good hr.streams hmeta he.faults_eq) (hsound.restart (by decide) hfit _).2.1)))
  exact ⟨d₀, id, _, hc, ht, crash_safe_iff (by decide) hfit hc hs ht⟩

/-! ## A crash after a hundred allocations -/

theorem Exact.append_page (h : Running name d f n recorded) (he : Exact d f n)
    (hall : d.allocedPgid = idRange 0 n) (hn : n < 2^19) :
    ∃ d' f', d.getNewPage = some ((n : ℤ), d') ∧ Running name d' f' (n + 1) recorded ∧
      Exact d' f' (n + 1) ∧ d'.allocedPgid = idRange 0 (n + 1 : ℕ) := by
  obtain ⟨hr, -, hnew, hsame⟩ := h.ids.refill
  obtain ⟨least, hleast, -⟩ := allocPage_cases h.ids h.streams.dbOpen_eq statusExist
  obtain rfl : least = n := by
    have hle := h.least_le hleast
    have hge := hnew _ hleast.1
    have h0 := (hr.mem_iff.mp (Or.inr hleast.1)).1
    rw [hall, mem_idRange] at hge
    omega
  have hmax : max n ((n : ℤ).toNat + 1) = n + 1 := by omega
  obtain ⟨ha, hex⟩ := he.getNewPage h hleast (by omega)
  have hrun := h.allocated hleast (by omega) statusExist
  rw [hmax] at hex hrun
  refine ⟨_, _, ha, hrun, hex, ?_⟩
  simp only [allocated, hsame, hall]
  ext id
  rw [Finset.mem_insert, mem_idRange, mem_idRange]
  omega

theorem Exact.append_pages (h : Running name d f n recorded) (he : Exact d f n)
    (hall : d.allocedPgid = idRange 0 n) (k : ℕ) (hk : n + k ≤ 2^19) :
    ∃ d' f', Trace (UseStep name) d (List.replicate k (.call .getNewPage)) d' ∧
      Running name d' f' (n + k) recorded ∧ Exact d' f' (n + k) ∧ d'.allocedPgid = idRange 0 (n + k : ℕ) := by
  induction k generalizing d f n with
  | zero => exact ⟨d, f, .nil d, h, he, hall⟩
  | succ k ih =>
    obtain ⟨q, g, hget, hrun, hex, hq⟩ := he.append_page h hall (by omega)
    obtain ⟨d', f', ht, hrun', hex', hq'⟩ := ih hrun hex hq (by omega)
    have hnk : n + 1 + k = n + (k + 1) := by omega
    rw [hnk] at hrun' hex' hq'
    exact ⟨d', f', .cons (.call (.getNewPage hget)) ht, hrun', hex', hq'⟩

/-- A hundred pages are allocated after the catalog page, and the database crashes. When it is opened
again, the first `get_new_page` returns page 100, which is allocated. -/
theorem crash_double_allocation : ∃ d₀ d d',
    create (fun _ => none) [100] Uninit.zero [] = some d₀ ∧ d₀.status = true ∧
    Trace (UseStep [100]) d₀ (List.replicate 100 (.call .getNewPage)) d ∧
    (openDb d.fs [100] Uninit.zero []).getNewPage = some (100, d') ∧
    100 ∈ (openDb d.fs [100] Uninit.zero []).allocedPgid := by
  have h0 : (0 : UInt8) ∉ ([100] : FileName) := by decide
  have hfit : Fits (dbFileName [100]) (logFileName [100]) := by unfold Fits; decide
  obtain ⟨d₀, hc, hs⟩ : ∃ d, create (fun _ => none) [100] Uninit.zero [] = some d ∧ d.status = true :=
    create_of_notExists rfl rfl rfl _
  obtain ⟨f, n, hn, hr, he⟩ := running_create hfit hc hs
  have hall : d₀.allocedPgid = idRange 0 n := by
    have hcat := (he rfl).catalog_mem
    ext id
    rw [mem_idRange]
    refine ⟨fun hid => ⟨(hr.ids.mem_iff.mp (Or.inl hid)).1, hr.alloced_lt id hid⟩, fun hid => ?_⟩
    have hlt := hr.alloced_lt _ hcat
    have hge := (hr.ids.mem_iff.mp (Or.inl hcat)).1
    obtain rfl : id = d₀.catalogPageId := by omega
    exact hcat
  obtain rfl : n = 1 := by
    have := hr.alloced_lt _ (he rfl).catalog_mem
    have := (hr.ids.mem_iff.mp (Or.inl (he rfl).catalog_mem)).1
    omega
  obtain ⟨d, g, ht, hrun, hex, hd⟩ := (he rfl).append_pages hr hall 100 (by norm_num)
  obtain ⟨hshort, hava, hfree⟩ := hrun.short_crash h0 hfit (by norm_num) Uninit.zero
  have hgone : goneIds g (1 + 100) = ∅ := by
    refine Finset.eq_empty_of_forall_notMem fun id hid => ?_
    obtain ⟨k, hk, hnot, -⟩ := mem_goneIds.mp hid
    refine hnot ((hex.exists_iff k hk).mpr ?_)
    rw [hd, mem_idRange]
    omega
  obtain ⟨hmem, d', hget⟩ := hshort.getNewPage_of_empty (hfree.trans hgone)
  rw [hava] at hmem hget
  exact ⟨d₀, d, d', hc, hs, ht, hget, hmem⟩

end Crash

end Dawn.DiskManager
