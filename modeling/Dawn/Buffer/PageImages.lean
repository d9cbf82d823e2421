import Dawn.Buffer.FrameRuns

/-!
# The page images that the pool writes

A page carries its status and its id in its first bytes, and a frame whose page is in the pool says so. Where
`flush_page` and `flush_all` write the frame as it is, `evict_page` first sets the page id in the frame to `-1`,
in the bytes too, and then writes it. So the image of a dirty page that is evicted no longer says which page it
is (`selfIdentifying_iff`).
-/

namespace Dawn.BufferPoolManager

open Function

variable {n : ℕ} {b b' c : BufferPoolManager n} {id p : ℤ} {f : Fin n} {rest : List (Fin n)} {data : Bytes}

/-! ## What a call writes -/

/-- What the wait for a frame writes for the page `p`: the victim's page, if it is dirty, after its id was taken
from it. -/
def evictWrites [NeZero n] (b : BufferPoolManager n) (p : ℤ) : Option Bytes :=
  match b.freeList, b.replacer.victim with
  | [], some (f, _) =>
    if b.mapping p = some f ∧ (b.pages f).isDirty then some ((b.pages f).setPageId invalidPageId).data
    else none
  | _, _ => none

/-- The call looks for a free frame. -/
def TakesFrame (b : BufferPoolManager n) : FrameOp n → Prop
  | .newPage | .newTmpPage => True
  | .getPage id _ => 0 ≤ id ∧ b.mapping id = none
  | _ => False

instance (b : BufferPoolManager n) (op : FrameOp n) : Decidable (TakesFrame b op) := by
  cases op <;> unfold TakesFrame <;> infer_instance

/-- The image that the pool writes to the disk for the page `p` in a call. -/
def written [NeZero n] (b : BufferPoolManager n) (op : FrameOp n) (p : ℤ) : Option Bytes :=
  match op with
  | .flushPage id => if p = id then b.content p else none
  | .flushAll order => if p ∈ order then b.content p else none
  | op => if TakesFrame b op then b.evictWrites p else none

/-- The page that is evicted for a frame is dirty. -/
def DirtyVictim [NeZero n] (b : BufferPoolManager n) : Prop :=
  b.freeList = [] ∧ ∃ f r, b.replacer.victim = some (f, r) ∧ (b.pages f).isDirty = true

section Evict

variable [NeZero n]

theorem evictWrites_of_free (h : b.freeList ≠ []) : b.evictWrites p = none := by
  unfold evictWrites
  split
  · contradiction
  · rfl

theorem evictWrites_of_victim {r : ClockReplacer n} (hnil : b.freeList = [])
    (hv : b.replacer.victim = some (f, r)) : b.evictWrites p =
      if b.mapping p = some f ∧ (b.pages f).isDirty then some ((b.pages f).setPageId invalidPageId).data else none := by
  unfold evictWrites
  rw [hnil, hv]

theorem eq_of_evictWrites (h : b.evictWrites p = some data) : ∃ f r, b.freeList = [] ∧
    b.replacer.victim = some (f, r) ∧ b.mapping p = some f ∧ (b.pages f).isDirty = true ∧
    data = ((b.pages f).setPageId invalidPageId).data := by
  unfold evictWrites at h
  split at h
  · next f r hnil hv =>
    split_ifs at h with hc
    exact ⟨f, r, hnil, hv, hc.1, hc.2, (Option.some.inj h).symm⟩
  · cases h

theorem Waited.image (hw : Waited b c) (h : FrameInv b) (hfree : c.freeList = f :: rest)
    (hp : p ∈ b.disk.allocedPgid) {i : ℤ} (h0 : 0 ≤ i) (hi : i < 4096) :
    c.disk.image p i = ((b.evictWrites p).getD (b.disk.image p)) i := by
  obtain ⟨m, hd⟩ := h.healthy
  cases hw with
  | already => rw [evictWrites_of_free (by simp [hfree]), Option.getD_none]
  | @evict v g r hm hv hnil =>
    obtain ⟨-, -, himg, hkeep⟩ := h.evicted_disk hm
    rw [evictWrites_of_victim hnil hv]
    by_cases hpv : p = v
    · subst hpv
      refine (himg i h0 hi).trans ?_
      simp only [hm, true_and]
      split_ifs
      · rfl
      · rfl
    · have hne : b.mapping p ≠ some g := fun hg => hpv (h.frames.inj hg hm)
      rw [if_neg fun hc => hne hc.1, Option.getD_none]
      exact hkeep p (hd.bounds hp).1 hpv i h0 hi

end Evict

section Flush

theorem flushedItem_content (b : BufferPoolManager n) (id p : ℤ) : (b.flushedItem id).content p = b.content p := by
  unfold content
  rw [flushedItem_mapping]
  cases hm : b.mapping p with
  | none => rfl
  | some f =>
    unfold flushedItem
    split
    · rfl
    · next g hg =>
      obtain rfl | hne := eq_or_ne f g
      · simp [flushed, Page.setIsDirty]
      · simp [flushed, hne]

theorem FrameInv.flushedItem_image (h : FrameInv b) (hp : p ∈ b.disk.allocedPgid) {i : ℤ} (h0 : 0 ≤ i)
    (hi : i < 4096) : (b.flushedItem id).disk.image p i =
      ((if p = id then b.content p else none).getD (b.disk.image p)) i := by
  obtain ⟨m, hd⟩ := h.healthy
  unfold BufferPoolManager.flushedItem content
  cases hm : b.mapping id with
  | none =>
    split_ifs with hpid
    · rw [hpid, hm]
      rfl
    · rfl
  | some f =>
    obtain ⟨d, hw, -, -, himg, hkeep⟩ := hd.writePage (h.alloced hm) (b.pages f).data
    simp only [flushed, hw]
    split_ifs with hpid
    · subst hpid
      rw [hm]
      exact himg i h0 hi
    · exact hkeep p (hd.bounds hp).1 hpid i h0 hi

theorem allocedPgid_flushedItem (b : BufferPoolManager n) (id : ℤ) :
    (b.flushedItem id).disk.allocedPgid = b.disk.allocedPgid := by
  unfold BufferPoolManager.flushedItem
  split
  · rfl
  · exact DiskManager.allocedPgid_writePage

theorem allocedPgid_foldl_flushedItem (b : BufferPoolManager n) (order : List ℤ) :
    (order.foldl flushedItem b).disk.allocedPgid = b.disk.allocedPgid := by
  induction order generalizing b with
  | nil => rfl
  | cons id order ih => exact (ih _).trans (allocedPgid_flushedItem b id)

theorem FrameInv.foldl_flushedItem_image (h : FrameInv b) {order : List ℤ} (hp : p ∈ b.disk.allocedPgid)
    {i : ℤ} (h0 : 0 ≤ i) (hi : i < 4096) : (order.foldl BufferPoolManager.flushedItem b).disk.image p i =
      ((if p ∈ order then b.content p else none).getD (b.disk.image p)) i := by
  induction order generalizing b with
  | nil => rfl
  | cons id order ih =>
    have hone : (b.flushedItem id).disk.image p i = _ := h.flushedItem_image hp h0 hi
    rw [List.foldl_cons, ih (h.flushedItem id) (by rwa [allocedPgid_flushedItem]), flushedItem_content]
    by_cases hmem : p ∈ order
    · simp only [hmem, List.mem_cons, or_true, if_true]
      cases hc : b.content p with
      | some data => rfl
      | none =>
        rw [hc, ite_self] at hone
        exact hone
    · rw [if_neg hmem, Option.getD_none, hone]
      simp only [List.mem_cons, hmem, or_false]

end Flush

/-! ## The label of a page -/

/-- Every page in the pool has its id and its status in its first bytes. -/
def Labelled (b : BufferPoolManager n) : Prop :=
  ∀ id f, b.mapping id = some f →
    (b.pages f).data.i32 pageIdOffset = id ∧ (b.pages f).data statusOffset = statusExist

/-- The disk calls of the call succeed, and a write to a page leaves its status and its id alone. -/
def Orderly (b : BufferPoolManager n) : FrameOp n → Prop
  | .getPage _ faults => faults = []
  | .write f data => data statusOffset = (b.pages f).data statusOffset ∧
      data.i32 pageIdOffset = (b.pages f).data.i32 pageIdOffset
  | _ => True

section Label

variable [NeZero n]

theorem Waited.pages_eq (hw : Waited b c) (h : Conserved b) (hm : c.mapping id = some f) : c.pages f = b.pages f := by
  cases hw with
  | already => rfl
  | evict hv =>
    obtain ⟨-, hne, -⟩ := h.frames.update_none_cases hv hm
    exact update_of_ne hne _ _

theorem Labelled.waited (h : Labelled b) (hb : Conserved b) (hw : Waited b c) : Labelled c := by
  intro id f hm
  rw [hw.pages_eq hb hm]
  exact h id f (hw.mapping_of_some hm)

omit [NeZero n] in
theorem Labelled.enter (h : Labelled b) (hb : Conserved b) (hfree : b.freeList = f :: rest) {q : Page}
    (hid : q.data.i32 pageIdOffset = id) (hstatus : q.data statusOffset = statusExist) : Labelled { b with
      freeList := rest
      mapping := update b.mapping id (some f)
      pages := update b.pages f q } := by
  intro j g hg
  rcases hb.frames.update_some_cases (by simp [hfree]) hg with ⟨rfl, rfl⟩ | ⟨-, hne, hg'⟩
  · simp only [update_self]
    exact ⟨hid, hstatus⟩
  · simpa [hne] using h j g hg'

omit [NeZero n] in
theorem Labelled.setPage (h : Labelled b) {q : Page} (hq : (q.data statusOffset = (b.pages f).data statusOffset ∧
      q.data.i32 pageIdOffset = (b.pages f).data.i32 pageIdOffset) ∨ ∀ id, b.mapping id ≠ some f) :
    Labelled { b with pages := update b.pages f q } := by
  intro j g hg
  obtain rfl | hne := eq_or_ne g f
  · obtain ⟨hstatus, hid⟩ := hq.resolve_right fun hno => hno j hg
    obtain ⟨hid', hstatus'⟩ := h j g hg
    simp only [update_self]
    exact ⟨hid.trans hid', hstatus.trans hstatus'⟩
  · simpa [hne] using h j g hg

omit [NeZero n] in
theorem Labelled.flushedItem (h : Labelled b) (id : ℤ) : Labelled (b.flushedItem id) := by
  unfold BufferPoolManager.flushedItem
  split
  · exact h
  · exact h.setPage (Or.inl ⟨rfl, rfl⟩)

omit [NeZero n] in
theorem Labelled.foldl_flushedItem (h : Labelled b) (order : List ℤ) :
    Labelled (order.foldl BufferPoolManager.flushedItem b) := by
  induction order generalizing b with
  | nil => exact h
  | cons id order ih => exact ih (h.flushedItem id)

theorem Labelled.step (h : Labelled b) (hb : FrameInv b) {op : FrameOp n} (hs : FrameStep b op b')
    (hop : Orderly b op) (hl : b'.latch = Latch.free) : Labelled b' := by
  cases hs with
  | newPage hcall hd | newTmpPage hcall hd =>
    obtain ⟨m, id, d, c, rest, -, hnew, hw, hc, hfree, -, -, rfl, hinv⟩ := hb.allocPage_cases hcall hd
    have hdisk : Labelled { b with disk := d } := h
    have hi : IsI32 id := hnew.healthy.isI32 (by simp [hnew.allocedPgid_eq])
    exact (hdisk.waited (hb.setDisk_newPage hnew).toConserved hw).enter hc.toConserved hfree
      (Page.i32_onAlloc _ hi) (Page.onAlloc_status _ _)
  | getPage hcall =>
    rcases hb.getPage_cases hcall with ⟨c, left, hf, rfl⟩ | ⟨-, hstuck⟩
    · cases hf with
      | invalid => exact h
      | mapped hm => exact h.setPage (Or.inl ⟨rfl, rfl⟩)
      | loaded hw hfree hm hall hexist =>
        have hc := hw.frameInv hb
        obtain ⟨m, hd⟩ := hc.healthy
        refine (h.waited hb.toConserved hw).enter hc.toConserved hfree (Page.i32_onLoad _ (hd.isI32 hall)) ?_
        exact hexist
      | notExist hw hfree =>
        have hc := hw.conserved hb.toConserved
        exact (h.waited hb.toConserved hw).setPage (Or.inr ((hc.frames.mem_free _).mp (by simp [hfree])))
    · exact absurd (hstuck.latch.symm.trans hl) (by decide)
  | unpinPage hcall =>
    rcases hb.unpinPage_cases hcall with rfl | ⟨f, hm, rfl⟩
    · exact h
    · exact h.setPage (Or.inl ⟨rfl, rfl⟩)
  | flushPage hcall =>
    rw [hb.flushPage_cases hcall]
    exact h.flushedItem _
  | flushAll horder hcall =>
    obtain rfl := hb.flushAll_cases horder hcall
    exact h.foldl_flushedItem _
  | deletePage hcall =>
    rcases hb.deletePage_cases hcall with ⟨hm, rfl⟩ | rfl | ⟨f, hm, -, rfl⟩
    · exact h
    · exact h
    · intro j g hg
      obtain ⟨-, hne, hg'⟩ := hb.frames.update_none_cases hm hg
      simpa [deleted, hne] using h j g hg'
  | write => exact h.setPage (Or.inl hop)

end Label

/-! ## What is on the disk after a call -/

section Images

variable [NeZero n] {op : FrameOp n}

theorem FrameInv.image_allocPage (h : FrameInv b) {flag : UInt8} (hcall : b.allocPage flag = some (f, b'))
    (hok : b'.disk.dbFail = false) (hp : p ∈ b.disk.allocedPgid) {i : ℤ} (h0 : 0 ≤ i) (hi : i < 4096) :
    b'.disk.image p i = ((b.evictWrites p).getD (b.disk.image p)) i := by
  obtain ⟨m, id, d, c, rest, -, hnew, hw, -, hfree, -, -, rfl, -⟩ := h.allocPage_cases hcall hok
  have hpd : p ∈ ({ b with disk := d } : BufferPoolManager n).disk.allocedPgid := by
    simp [hnew.allocedPgid_eq, hp]
  have hsame : ({ b with disk := d } : BufferPoolManager n).evictWrites p = b.evictWrites p := rfl
  refine (hw.image (h.setDisk_newPage hnew) hfree hpd h0 hi).trans ?_
  rw [hsame]
  cases b.evictWrites p with
  | some data => rfl
  | none => exact hnew.image_eq p hp i h0 hi

theorem FrameInv.image_getPage (h : FrameInv b) {id : ℤ} {res : Option (Fin n)}
    (hcall : (b.withFaults []).getPage id = some (res, b')) (hp : p ∈ b.disk.allocedPgid) {i : ℤ}
    (h0 : 0 ≤ i) (hi : i < 4096) : b'.disk.image p i = ((written b (.getPage id []) p).getD (b.disk.image p)) i := by
  simp only [written]
  rcases h.getPage_cases hcall with ⟨c, left, hf, rfl⟩ | ⟨-, hstuck⟩
  · cases hf with
    | invalid hid =>
      have hno : ¬ TakesFrame b (.getPage id []) := fun hc => absurd hc.1 (not_le.mpr hid)
      rw [if_neg hno]
      rfl
    | mapped hm =>
      have hno : ¬ TakesFrame b (.getPage id []) := fun hc => absurd (hm.symm.trans hc.2) (by simp)
      rw [if_neg hno]
      rfl
    | loaded hw hfree hm hall hexist =>
      obtain ⟨m', hd'⟩ := (hw.frameInv h).healthy
      rw [if_pos (by exact ⟨(hd'.bounds hall).1, hm⟩)]
      exact hw.image h hfree hp h0 hi
    | notExist hw hfree hid hm =>
      rw [if_pos (by exact ⟨hid, hm⟩)]
      exact hw.image h hfree hp h0 hi
  · -- A read that fails comes after the victim has been written back.
    rw [withFaults_nil h.disk_faults] at hstuck
    obtain ⟨hw, hfree, hid, hm, -⟩ := hstuck
    rw [if_pos (by exact ⟨hid, hm⟩)]
    refine Eq.trans ?_ (hw.image h hfree hp h0 hi)
    exact congrFun (congrFun DiskManager.image_readPage p) i

theorem FrameInv.image_step (h : FrameInv b) (hs : FrameStep b op b') (hop : Orderly b op)
    (hp : p ∈ b.disk.allocedPgid) (hp' : p ∈ b'.disk.allocedPgid) {i : ℤ} (h0 : 0 ≤ i) (hi : i < 4096) :
    b'.disk.image p i = ((written b op p).getD (b.disk.image p)) i := by
  obtain ⟨m, hd⟩ := h.healthy
  cases hs with
  | newPage hcall hok | newTmpPage hcall hok =>
    simp only [written]
    exact h.image_allocPage hcall hok hp h0 hi
  | getPage hcall =>
    obtain rfl := hop
    exact h.image_getPage hcall hp h0 hi
  | unpinPage hcall =>
    rcases h.unpinPage_cases hcall with rfl | ⟨f, hm, rfl⟩ <;> rfl
  | flushPage hcall =>
    rw [h.flushPage_cases hcall]
    exact h.flushedItem_image hp h0 hi
  | flushAll horder hcall =>
    obtain rfl := h.flushAll_cases horder hcall
    exact h.foldl_flushedItem_image hp h0 hi
  | @deletePage _ id ok hcall =>
    obtain ⟨-, hall, hkeep⟩ := hd.freePage id
    rcases h.deletePage_cases hcall with ⟨hm, rfl⟩ | rfl | ⟨f, hm, -, rfl⟩
    · rw [hall] at hp'
      exact hkeep p (hd.bounds hp).1 (Finset.ne_of_mem_erase hp') i h0 hi
    · rfl
    · rw [show (b.deleted id f).disk = (b.disk.freePage id).2 from rfl, hall] at hp'
      exact hkeep p (hd.bounds hp).1 (Finset.ne_of_mem_erase hp') i h0 hi
  | write => rfl

theorem FrameInv.mem_alloced_step (h : FrameInv b) (hs : FrameStep b op b')
    (hp : p ∈ b.disk.allocedPgid) (hop : op ≠ .deletePage p) : p ∈ b'.disk.allocedPgid := by
  cases hs with
  | newPage hcall hok | newTmpPage hcall hok =>
    obtain ⟨m, id, d, c, rest, -, hnew, hw, -, -, -, -, rfl, -⟩ := h.allocPage_cases hcall hok
    rw [show (c.given id _ rest).disk = c.disk from rfl, hw.allocedPgid_eq, hnew.allocedPgid_eq]
    exact Finset.mem_insert_of_mem hp
  | getPage hcall =>
    rcases h.getPage_cases hcall with ⟨c, left, hf, rfl⟩ | ⟨-, hstuck⟩
    · cases hf with
      | invalid | mapped => exact hp
      | loaded hw | notExist hw => exact hw.allocedPgid_eq ▸ hp
    · obtain ⟨hw, -, -, -, -⟩ := hstuck
      refine DiskManager.allocedPgid_readPage.symm ▸ ?_
      exact hw.allocedPgid_eq ▸ hp
  | unpinPage hcall =>
    rcases h.unpinPage_cases hcall with rfl | ⟨f, -, rfl⟩
    · exact hp
    · exact hp
  | flushPage hcall =>
    rw [h.flushPage_cases hcall, allocedPgid_flushedItem]
    exact hp
  | flushAll horder hcall =>
    obtain rfl := h.flushAll_cases horder hcall
    rw [allocedPgid_foldl_flushedItem]
    exact hp
  | @deletePage _ id ok hcall =>
    obtain ⟨m, hd⟩ := h.healthy
    obtain ⟨-, hall, -⟩ := hd.freePage id
    have hmem : p ∈ (b.disk.freePage id).2.allocedPgid := by
      rw [hall]
      exact Finset.mem_erase.mpr ⟨fun he => hop (by rw [he]), hp⟩
    rcases h.deletePage_cases hcall with ⟨-, rfl⟩ | rfl | ⟨f, -, -, rfl⟩
    · exact hmem
    · exact hp
    · exact hmem
  | write => exact hp

theorem written_of_takesFrame (ht : TakesFrame b op) (p : ℤ) : written b op p = b.evictWrites p := by
  unfold written
  split
  · exact absurd ht id
  · exact absurd ht id
  · exact if_pos ht

theorem written_of_locked (hl : b.latch = ⟨true, 0⟩) (hs : FrameStep b op b') :
    ¬ TakesFrame b op ∧ ∀ p, written b op p = none := by
  rcases hs.cases_of_locked hl with ⟨id, faults, rfl, hid, -⟩ | ⟨f, data, rfl, -⟩
  · have hno : ¬ TakesFrame b (.getPage id faults) := fun hc => absurd hc.1 (not_le.mpr hid)
    exact ⟨hno, fun p => if_neg hno⟩
  · exact ⟨id, fun p => by simp [written, TakesFrame]⟩

theorem mapped_of_written (hw : written b op p = some data) : ∃ f, b.mapping p = some f := by
  have hcontent : ∀ {data}, b.content p = some data → ∃ f, b.mapping p = some f := fun hc => by
    obtain ⟨f, hf, -⟩ := Option.map_eq_some_iff.mp hc
    exact ⟨f, hf⟩
  unfold written at hw
  split at hw
  · split_ifs at hw
    exact hcontent hw
  · split_ifs at hw
    exact hcontent hw
  · split_ifs at hw
    obtain ⟨f, _, -, -, hm, -, -⟩ := eq_of_evictWrites hw
    exact ⟨f, hm⟩

/-- Every image that the call writes says which page it is and that it exists, and it is what was in the frame. -/
def SelfIdentifying (b : BufferPoolManager n) (op : FrameOp n) (b' : BufferPoolManager n) : Prop :=
  ∀ p, (written b op p).isSome →
    (b'.disk.image p).i32 pageIdOffset = p ∧ b'.disk.image p statusOffset = statusExist ∧
    ∀ f, b.mapping p = some f → ∀ i, 0 ≤ i → i < 4096 → b'.disk.image p i = (b.pages f).data i

theorem FrameInv.image_of_written (h : FrameInv b) (hs : FrameStep b op b') (hop : Orderly b op)
    (hw : written b op p = some data) {i : ℤ} (h0 : 0 ≤ i) (hi : i < 4096) : b'.disk.image p i = data i := by
  obtain ⟨f, hm⟩ := mapped_of_written hw
  have hne : op ≠ .deletePage p := by
    rintro rfl
    simp [written, TakesFrame] at hw
  have hp := h.alloced hm
  rw [h.image_step hs hop hp (h.mem_alloced_step hs hp hne) h0 hi, hw, Option.getD_some]

theorem FrameInv.i32_image_of_written (h : FrameInv b) (hs : FrameStep b op b') (hop : Orderly b op)
    (hw : written b op p = some data) : (b'.disk.image p).i32 pageIdOffset = data.i32 pageIdOffset := by
  refine Bytes.i32_congr fun i hi => h.image_of_written hs hop hw ?_ ?_
  · simp only [pageIdOffset]
    omega
  · simp only [pageIdOffset]
    omega

theorem FrameInv.image_of_dirtyVictim (h : FrameInv b) (hs : FrameStep b op b') (hop : Orderly b op)
    (ht : TakesFrame b op) (hv : DirtyVictim b) : ∃ p, 0 ≤ p ∧ (written b op p).isSome ∧
      (b'.disk.image p).i32 pageIdOffset = -1 := by
  obtain ⟨hnil, f, r, hv, hdirty⟩ := hv
  obtain ⟨p, hm⟩ := h.frames.exists_key hnil f
  obtain ⟨m, hd⟩ := h.healthy
  have hw : written b op p = some ((b.pages f).setPageId invalidPageId).data := by
    have he := evictWrites_of_victim (p := p) hnil hv
    rw [if_pos ⟨hm, hdirty⟩] at he
    exact (written_of_takesFrame ht p).trans he
  refine ⟨p, (hd.bounds (h.alloced hm)).1, by simp [hw], ?_⟩
  rw [h.i32_image_of_written hs hop hw]
  exact Bytes.i32_setI32 (by decide)

theorem content_of_written (hw : written b op p = some data) (hno : ¬ (TakesFrame b op ∧ DirtyVictim b)) :
    b.content p = some data := by
  unfold written at hw
  split at hw
  · split_ifs at hw
    exact hw
  · split_ifs at hw
    exact hw
  · split_ifs at hw with ht
    obtain ⟨f, r, hnil, hv, -, hdirty, -⟩ := eq_of_evictWrites hw
    exact absurd ⟨ht, hnil, f, r, hv, hdirty⟩ hno

theorem labelled_of_trace {d : DiskManager} {m : ℕ} (hd : d.Healthy m) {lsn : Fin n → ℤ}
    {heap : Fin n → Bytes} {ops : List (FrameOp n)}
    (ht : Trace (fun b op b' => FrameStep b op b' ∧ Orderly b op) (new d lsn heap) ops b) :
    Reached b ∧ (b.latch = Latch.free → Labelled b) := by
  refine ht.invariant (P := fun b => Reached b ∧ (b.latch = Latch.free → Labelled b)) ?_
    ⟨Or.inl (frameInv_new hd lsn heap), fun _ id f hm => absurd hm (by simp [new])⟩
  rintro b op b' ⟨hr, hlab⟩ ⟨hs, hop⟩
  refine ⟨hr.step hs, fun hl => ?_⟩
  rcases hr with h | ⟨h, hlocked⟩
  · exact (hlab h.latch_free).step h hs hop hl
  · exact absurd ((h.step_of_locked hlocked hs).2.symm.trans hl) (by decide)

/-- The images that a call writes are self-identifying exactly when it does not evict a dirty page. -/
theorem selfIdentifying_iff {d : DiskManager} {m : ℕ} (hd : d.Healthy m) {lsn : Fin n → ℤ}
    {heap : Fin n → Bytes} {ops : List (FrameOp n)}
    (ht : Trace (fun b op b' => FrameStep b op b' ∧ Orderly b op) (new d lsn heap) ops b)
    (hs : FrameStep b op b') (hop : Orderly b op) :
    SelfIdentifying b op b' ↔ ¬ (TakesFrame b op ∧ DirtyVictim b) := by
  obtain ⟨hr, hlab⟩ := labelled_of_trace hd ht
  rcases hr with h | ⟨h, hl⟩
  · constructor
    · rintro hself ⟨htake, hv⟩
      obtain ⟨p, h0, hw, himg⟩ := h.image_of_dirtyVictim hs hop htake hv
      have hid := (hself p hw).1
      omega
    · intro hno p hw
      obtain ⟨data, hdata⟩ := Option.isSome_iff_exists.mp hw
      obtain ⟨f, hm, rfl⟩ := Option.map_eq_some_iff.mp (content_of_written hdata hno)
      obtain ⟨hid, hstatus⟩ := hlab h.latch_free p f hm
      refine ⟨(h.i32_image_of_written hs hop hdata).trans hid,
        (h.image_of_written hs hop hdata le_rfl (by norm_num [statusOffset])).trans hstatus,
        fun g hg i h0 hi => ?_⟩
      obtain rfl : f = g := Option.some.inj (hm.symm.trans hg)
      exact h.image_of_written hs hop hdata h0 hi
  · obtain ⟨hno, hnone⟩ := written_of_locked hl hs
    exact iff_of_true (fun p hw => absurd hw (by simp [hnone p])) fun hc => hno hc.1

end Images

/-! ## A dirty page is evicted -/

/-- A pool of one frame on a database that was just created: a new page is given back, and its frame is wanted
for the next one. -/
theorem exists_dirtyVictim : ∃ d m lsn heap p b b',
    DiskManager.create (fun _ => none) [100] DiskManager.Uninit.zero [] = some d ∧ d.Healthy m ∧
    Trace (fun b op b' => FrameStep b op b' ∧ Orderly b op) (new d lsn heap)
      [.newPage, .unpinPage p false] (b : BufferPoolManager 1) ∧
    FrameStep b .newPage b' ∧ FrameInv b ∧ DirtyVictim b := by
  obtain ⟨d, m, hc, hm, hd⟩ := DiskManager.exists_healthy
  let b0 : BufferPoolManager 1 := new d (fun _ => 0) (fun _ _ => 0)
  have hfree : b0.freeList = [0] := rfl
  obtain ⟨p, d1, hnew, hok, hcall1⟩ := newPage_of_free rfl hfree rfl hd (by omega) (by simp [b0, new])
  generalize hb1 : ({ b0 with disk := d1 } : BufferPoolManager 1).given p 0 [] = b1 at hcall1
  have hok1 : b1.disk.dbFail = false := by rw [← hb1]; exact hok
  have hinv1 : FrameInv b1 := by
    obtain ⟨_, _, _, _, _, -, -, -, -, -, -, -, -, hinv⟩ :=
      (frameInv_new hd (fun _ => 0) (fun _ _ => 0)).allocPage_cases hcall1 hok1
    exact hinv
  have hm1 : b1.mapping p = some 0 := by simp [← hb1, given]
  have hcall2 := unpinPage_eq hinv1.latch_free hm1 (hinv1.page_free 0) false
  have hinv2 := hinv1.unpinned 0 false
  generalize hb2 : b1.unpinned 0 false = b2 at hcall2 hinv2
  have hm2 : b2.mapping p = some 0 := by rw [← hb2]; exact hm1
  have hnil : b2.freeList = [] := by rw [← hb2, ← hb1]; rfl
  have hdisk : b2.disk = d1 := by rw [← hb2, ← hb1]; rfl
  -- The frame is in the replacer, and its page is dirty since it is new.
  obtain ⟨g, r, hv⟩ : ∃ g r, b2.replacer.victim = some (g, r) := by
    have hr : b2.replacer = (ClockReplacer.new 1).unpin 0 := by
      simp [← hb2, ← hb1, unpinned, given, b0, new]
    rw [hr]
    exact ClockReplacer.victim_of_present (ClockReplacer.counted_new.unpin 0)
      ⟨0, by simp [ClockReplacer.present_unpin]⟩
  obtain rfl : g = 0 := Subsingleton.elim _ _
  have hdirty : (b2.pages 0).isDirty = true := by simp [← hb2, ← hb1, unpinned, given]
  have hle := hnew.le
  obtain ⟨b3, hcall3, hok3, -⟩ := newPage_of_victim hinv2.latch_free hnil hv (hinv2.page_free 0)
    (by rw [hinv2.pageId hm2]; exact hm2) (hdisk ▸ hnew.healthy) (by omega) fun _ _ hm => hinv2.alloced hm
  exact ⟨d, m, _, _, p, b2, b3, hc, hd,
    .cons ⟨.newPage hcall1 hok1, trivial⟩ (.single ⟨.unpinPage hcall2, trivial⟩), .newPage hcall3 hok3,
    hinv2, hnil, 0, r, hv, hdirty⟩

/-- The second call for a new page. -/
theorem selfIdentifying_iff_newPage : ∃ b b' : BufferPoolManager 1, FrameStep b .newPage b' ∧
    (SelfIdentifying b .newPage b' ↔ ¬ (TakesFrame b .newPage ∧ DirtyVictim b)) := by
  obtain ⟨d, m, lsn, heap, p, b, b', -, hd, ht, hs, -, -⟩ := exists_dirtyVictim
  exact ⟨b, b', hs, selfIdentifying_iff hd ht hs trivial⟩

/-- It writes the first page with `-1` for its id. -/
theorem evicted_page_loses_id : ∃ d lsn heap p b b' q,
    DiskManager.create (fun _ => none) [100] DiskManager.Uninit.zero [] = some d ∧
    Trace (fun b op b' => FrameStep b op b' ∧ Orderly b op) (new d lsn heap)
      [.newPage, .unpinPage p false] (b : BufferPoolManager 1) ∧
    FrameStep b .newPage b' ∧ 0 ≤ q ∧ (written b .newPage q).isSome ∧
    (b'.disk.image q).i32 pageIdOffset = -1 := by
  obtain ⟨d, m, lsn, heap, p, b, b', hc, -, ht, hs, hinv, hv⟩ := exists_dirtyVictim
  obtain ⟨q, h0, hw, himg⟩ := hinv.image_of_dirtyVictim hs trivial trivial hv
  exact ⟨d, lsn, heap, p, b, b', q, hc, ht, hs, h0, hw, himg⟩

end Dawn.BufferPoolManager
