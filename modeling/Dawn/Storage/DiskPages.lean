import Dawn.Storage.Recovery

/-!
# The disk manager as a store of page images

What the buffer pool needs to know of the disk manager, as long as its reads and writes succeed: a new
page has an id that was not allocated, an allocated page can be written and read back, and a page can be
given back, none of which touches any other page.
-/

namespace Dawn.DiskManager

open Function

/-- The bytes of a page in the `.db` file. -/
def image (d : DiskManager) (pageId : ℤ) : Bytes := fun i =>
  match d.fs d.dbName with
  | none => 0
  | some f => f.byte (pageId * 4096 + i).toNat

/-- An open database of `n` pages whose reads and writes succeed. Only the pages that are allocated say
that they exist. -/
structure Healthy (d : DiskManager) (n : ℕ) : Prop where
  faults_eq : d.faults = []
  dbFail_eq : d.dbFail = false
  running : ∃ name f recorded, Running name d f n recorded ∧
    ∀ k : ℕ, k < n → Exists f k → (k : ℤ) ∈ d.allocedPgid

section Image

variable {d d' : DiskManager} {f : File} {n : ℕ} {id j i : ℤ} {src : Bytes}

theorem image_eq (hf : d.fs d.dbName = some f) : d.image id i = f.byte (id * 4096 + i).toNat := by
  unfold image
  rw [hf]

theorem image_write (hf : d.fs d.dbName = some (f.write (id * 4096).toNat 4096 src)) (hid : 0 ≤ id)
    (h0 : 0 ≤ i) (hi : i < 4096) : d.image id i = src i := by
  rw [image_eq hf, File.byte_write_of_mem (by omega) (by omega)]
  congr 1
  omega

theorem image_write_of_ne {len : ℕ} (hf : d.fs d.dbName = some f)
    (hf' : d'.fs d'.dbName = some (f.write (id * 4096).toNat len src)) (hlen : len ≤ 4096)
    (hid : 0 ≤ id) (hj : 0 ≤ j) (hne : j ≠ id) (h0 : 0 ≤ i) (hi : i < 4096) : d'.image j i = d.image j i := by
  rw [image_eq hf', image_eq hf, File.byte_write_of_notMem]
  rcases lt_or_gt_of_ne hne with h | h <;> omega

end Image

section Healthy

variable {d d' : DiskManager} {n : ℕ} {id : ℤ}

theorem healthy_create {fs : FileSystem} {name : FileName} {u : Uninit}
    (hfit : Fits (dbFileName name) (logFileName name)) (hc : create fs name u [] = some d)
    (hs : d.status = true) : ∃ n, n ≤ 1 ∧ Healthy d n := by
  obtain ⟨f, n, hn, hr, he⟩ := running_create hfit hc hs
  exact ⟨n, hn, (he rfl).faults_eq, (he rfl).dbFail_eq, name, f, 100, hr,
    fun k hk hex => ((he rfl).exists_iff k hk).mp hex⟩

theorem exists_healthy_dbName : ∃ d m, create (fun _ => none) [100] Uninit.zero [] = some d ∧ m ≤ 1 ∧ Healthy d m ∧
      d.dbName = dbFileName [100] := by
  obtain ⟨d, hc, hs⟩ : ∃ d, create (fun _ => none) [100] Uninit.zero [] = some d ∧ d.status = true :=
    create_of_notExists rfl rfl rfl _
  have hfit : Fits (dbFileName [100]) (logFileName [100]) := by unfold Fits; decide
  obtain ⟨m, hm, hd⟩ := healthy_create hfit hc hs
  obtain ⟨f, n, -, hr, -⟩ := running_create hfit hc hs
  exact ⟨d, m, hc, hm, hd, hr.streams.dbName_eq⟩

theorem exists_healthy : ∃ d m, create (fun _ => none) [100] Uninit.zero [] = some d ∧ m ≤ 1 ∧ Healthy d m := by
  obtain ⟨d, m, hc, hm, hd, -⟩ := exists_healthy_dbName
  exact ⟨d, m, hc, hm, hd⟩

theorem Healthy.bounds (h : Healthy d n) (hid : id ∈ d.allocedPgid) : 0 ≤ id ∧ id < n := by
  obtain ⟨name, f, recorded, hr, -⟩ := h.running
  exact ⟨(hr.ids.mem_iff.mp (Or.inl hid)).1, hr.alloced_lt id hid⟩

theorem Healthy.isI32 (h : Healthy d n) (hid : id ∈ d.allocedPgid) : IsI32 id := by
  obtain ⟨name, f, recorded, hr, -⟩ := h.running
  obtain ⟨h0, hlt⟩ := h.bounds hid
  have hle := hr.pages_le
  exact ⟨by omega, by omega⟩

/-- A new page takes an id that was not allocated, and leaves the other pages alone. -/
structure NewPage (d : DiskManager) (n : ℕ) (id : ℤ) (d' : DiskManager) : Prop where
  le : id ≤ n
  nonneg : 0 ≤ id
  notMem : id ∉ d.allocedPgid
  allocedPgid_eq : d'.allocedPgid = insert id d.allocedPgid
  image_eq : ∀ j ∈ d.allocedPgid, ∀ i, 0 ≤ i → i < 4096 → d'.image j i = d.image j i
  healthy : Healthy d' (max n (id.toNat + 1))

theorem Healthy.allocPage_cases (h : Healthy d n) (flag : UInt8) : ∃ id d', d.allocPage flag = some (id, d') ∧
      ((d'.dbFail = false ∧ NewPage d n id d') ∨ (d'.dbFail = true ∧ n = 2^19)) := by
  obtain ⟨name, f, recorded, hr, hex⟩ := h.running
  obtain ⟨id, hid, hcases⟩ := DiskManager.allocPage_cases hr.ids hr.streams.dbOpen_eq flag
  obtain ⟨hinv, -, hnew, hsame⟩ := hr.ids.refill
  have h0 := (hinv.mem_iff.mp (Or.inr hid.1)).1
  have hle := hr.least_le hid
  have hn := hr.pages_le
  by_cases hlt : id < 2^19
  · have ha := allocPage_of_good hr.streams.dbOpen_eq hr.dbName_file h.dbFail_eq h.faults_eq hid h0 hlt
      flag
    have hfs : (d.refill.allocated flag id f).fs (d.refill.allocated flag id f).dbName =
        some (f.write (id * 4096).toNat 4096 (d.refill.pageBuf.memset 0 flag 1)) :=
      update_self _ _ _
    have hfail : (d.refill.allocated flag id f).dbFail = false := by simp [allocated, h.dbFail_eq]
    have hall : (d.refill.allocated flag id f).allocedPgid = insert id d.allocedPgid := by
      simp [allocated, hsame]
    refine ⟨id, _, ha, Or.inl ⟨hfail, hle, h0, hnew _ hid.1, hall, fun j hj i hi hi' => ?_, ?_, hfail,
      name, _, recorded, hr.allocated hid hlt flag, fun k hk hk' => ?_⟩⟩
    · have hne : j ≠ id := fun he => hnew _ hid.1 (he ▸ hj)
      exact image_write_of_ne hr.dbName_file hfs le_rfl h0 (h.bounds hj).1 hne hi hi'
    · simp [allocated, h.faults_eq]
    · rw [hall, Finset.mem_insert]
      by_cases hkid : (k : ℤ) = id
      · exact Or.inl hkid
      · exact Or.inr (hex k (by omega) ((exists_write_of_ne h0 le_rfl hkid).mp hk'))
  · -- The offset does not fit, so that the page could not be written.
    rcases hcases with ⟨-, -, -, -, hlt', -⟩ | ha
    · exact absurd hlt' hlt
    · exact ⟨-1, _, ha, Or.inr ⟨rfl, by omega⟩⟩

theorem Healthy.writePage (h : Healthy d n) (hid : id ∈ d.allocedPgid) (data : Bytes) :
    ∃ d', d.writePage id data = (true, d') ∧ Healthy d' n ∧ d'.allocedPgid = d.allocedPgid ∧
      (∀ i, 0 ≤ i → i < 4096 → d'.image id i = data i) ∧
      ∀ j, 0 ≤ j → j ≠ id → ∀ i, 0 ≤ i → i < 4096 → d'.image j i = d.image j i := by
  obtain ⟨name, f, recorded, hr, hex⟩ := h.running
  obtain ⟨h0, hlt⟩ := h.bounds hid
  have hw := dbWrite_of_good hr.dbName_file h.dbFail_eq hr.streams.dbOpen_eq
    (show 0 ≤ id * pageSize by simp only [pageSize]; omega) h.faults_eq pageSize.toNat data
  unfold DiskManager.writePage
  rw [if_neg (by simp [hr.streams.dbOpen_eq]), hw]
  have hfs : (update d.fs d.dbName (some (f.write (id * 4096).toNat 4096 data))) d.dbName =
      some (f.write (id * 4096).toNat 4096 data) := update_self _ _ _
  let d' := { d with fs := update d.fs d.dbName (some (f.write (id * 4096).toNat 4096 data)) }
  have hrun : Running name d' _ n recorded := hr.step rfl
    (size_write_within hr.size_eq h0 hlt (by norm_num) le_rfl data) hr.pages_le hr.pages_le_maxAva
    (hr.ids.congr rfl rfl rfl) hr.alloced_lt
    ⟨rfl, rfl, rfl, rfl, rfl, rfl, rfl, rfl, rfl, rfl⟩
  refine ⟨_, rfl, ⟨h.faults_eq, h.dbFail_eq, name, _, recorded, hrun, fun k hk hk' => ?_⟩, rfl,
    fun i hi hi' => image_write hfs h0 hi hi',
    fun j hj hne i hi hi' => image_write_of_ne hr.dbName_file hfs le_rfl h0 hj hne hi hi'⟩
  by_cases hkid : (k : ℤ) = id
  · exact hkid ▸ hid
  · exact hex k hk ((exists_write_of_ne h0 le_rfl hkid).mp hk')

theorem dbRead_of_good {f : File} {offset : ℤ} (hf : d.fs d.dbName = some f) (hfail : d.dbFail = false)
    (ho : d.dbOpen = true) (h0 : 0 ≤ offset) (hq : d.faults = []) (len : ℕ) (dst : Bytes) :
    d.dbRead offset len dst = (f.gcount offset.toNat len, f.read offset.toNat len dst,
      { d with dbFail := decide (f.gcount offset.toNat len < len) }) := by
  unfold dbRead
  have h0' : ¬ offset < 0 := by omega
  simp [hf, hfail, ho, h0', hq]

theorem Healthy.readPage_cases (h : Healthy d n) (h0 : 0 ≤ id) (dst : Bytes) :
    (id < n ∧ ∃ data, d.readPage id dst = (true, data, d) ∧ ∀ i, 0 ≤ i → i < 4096 → data i = d.image id i) ∨
    ((n : ℤ) ≤ id ∧ (d.readPage id dst).1 = false ∧ (d.readPage id dst).2.2.dbFail = true) := by
  obtain ⟨name, f, recorded, hr, hex⟩ := h.running
  have hf := hr.dbName_file
  have hsize := hr.size_eq
  have hread := dbRead_of_good hf h.dbFail_eq hr.streams.dbOpen_eq
    (show 0 ≤ id * pageSize by simp only [pageSize]; omega) h.faults_eq pageSize.toNat dst
  have hpos : (id * pageSize).toNat = id.toNat * 4096 := by simp only [pageSize]; omega
  have hlen : pageSize.toNat = 4096 := rfl
  rw [hpos, hlen] at hread
  unfold DiskManager.readPage
  rw [if_neg (by simp [hr.streams.dbOpen_eq])]
  simp only [hlen, hread]
  by_cases hlt : id < n
  · have hg : f.gcount (id.toNat * 4096) 4096 = 4096 := File.gcount_of_le (by rw [hsize]; omega)
    refine Or.inl ⟨hlt, f.read (id.toNat * 4096) 4096 dst, ?_, fun i hi hi' => ?_⟩
    · simp [hg, ← h.dbFail_eq]
    · rw [File.read_apply hi (by rw [hg]; exact hi'), image_eq hf]
      congr 1
      omega
  · have hg : f.gcount (id.toNat * 4096) 4096 < 4096 := by
      unfold File.gcount
      omega
    exact Or.inr ⟨by omega, decide_eq_false hg.ne, decide_eq_true hg⟩

theorem Healthy.mem_of_exists (h : Healthy d n) (h0 : 0 ≤ id) (hid : id < n)
    (hex : d.image id 0 = statusExist) : id ∈ d.allocedPgid := by
  obtain ⟨name, f, recorded, hr, hall⟩ := h.running
  have hmem := hall id.toNat (by omega)
  rw [Int.toNat_of_nonneg h0] at hmem
  apply hmem
  rw [image_eq hr.dbName_file, add_zero] at hex
  unfold Exists
  rw [show id.toNat * 4096 = (id * 4096).toNat by omega, hex]
  decide

theorem Healthy.freePage (h : Healthy d n) (id : ℤ) :
    Healthy (d.freePage id).2 n ∧ (d.freePage id).2.allocedPgid = d.allocedPgid.erase id ∧
      ∀ j, 0 ≤ j → j ≠ id → ∀ i, 0 ≤ i → i < 4096 → (d.freePage id).2.image j i = d.image j i := by
  obtain ⟨name, f, recorded, hr, hex⟩ := h.running
  rcases freePage_cases hr.ids id with (⟨hneg, he⟩ | ⟨-, hmem, he⟩) |
    ⟨hmem, h0, hlt, ⟨g, hg, -, -, -, he⟩ | he⟩
  · have hmem : id ∉ d.allocedPgid := fun hc => absurd (h.bounds hc).1 (by omega)
    rw [he, Finset.erase_eq_of_notMem hmem]
    exact ⟨h, rfl, fun _ _ _ _ _ _ => rfl⟩
  · rw [he, Finset.erase_eq_of_notMem hmem]
    exact ⟨h, rfl, fun _ _ _ _ _ _ => rfl⟩
  · obtain rfl : f = g := Option.some.inj (hr.dbName_file.symm.trans hg)
    have hrun := hr.released hmem
    rw [he]
    rw [releasePgid_fields] at hrun ⊢
    have hfs : (update d.fs d.dbName (some (f.write (id * 4096).toNat 1 fun _ => statusFree))) d.dbName =
        some (f.write (id * 4096).toNat 1 fun _ => statusFree) := update_self _ _ _
    refine ⟨⟨?_, h.dbFail_eq, name, _, recorded, hrun, fun k hk hk' => ?_⟩, rfl,
      fun j hj hne i hi hi' => image_write_of_ne hr.dbName_file hfs (by norm_num) h0 hj hne hi hi'⟩
    · simp [h.faults_eq]
    · have hkid : (k : ℤ) ≠ id := by
        rintro rfl
        exact not_exists_write_free h0 (by simpa using hk')
      exact Finset.mem_erase.mpr ⟨hkid, hex k hk ((exists_write_of_ne h0 (by norm_num) hkid).mp hk')⟩
  · -- The status byte is written when all writes succeed.
    have hw := dbWrite_of_good hr.dbName_file h.dbFail_eq hr.streams.dbOpen_eq
      (show 0 ≤ id * 4096 by omega) h.faults_eq 1 fun _ => statusFree
    unfold DiskManager.freePage at he
    rw [if_neg (by omega), if_neg (not_not.mpr hmem), wrap32_offset h0 hlt, hw] at he
    exact absurd (congrArg Prod.fst he) (by simp)

end Healthy

end Dawn.DiskManager
