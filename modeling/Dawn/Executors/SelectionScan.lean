import Dawn.Executors.Selection
import Dawn.Table.TableMap

/-!
# Selections over tables

A query plan is a `SelectionExecutor` over a `SeqScanExecutor`. In a table that has been filled by calls of which none
makes a bucket overflow, the plan returns the tuples of the map that the table is, each of them once, for which the
predicate holds (`selection_scan`). The selection of a key reads the whole table to find what `get_tuple` finds in one
bucket (`lookup_eq_selection`).
-/

namespace Dawn

open LinkHashTableIter

variable {al : Allocator} {sz : ℤ} {doHash : List UInt8 → UInt64} {schema : Schema} {root : ℤ} {s₀ s : PageStore}
  {L : Layout} {M : TableMap} {t : Tuple}

/-- A scan pulls the tuples of the table. -/
theorem TableInv.scan_pulls (h : TableInv sz s root L) (hfilled : SlotsFilled s root) :
    ∃ it it' s', LinkHashTableIter.new root s = some (some it, s') ∧
      Pulls scanNext (it, s') (tableTuples s.page root L 0) (it', s') := by
  have hread : L.AllPages s TablePage.Readable := fun ho => (h.good ho).readable
  obtain ⟨it, s', hnew, hp⟩ := new_points h.skeleton hread (h.skeleton.slotsFilled_iff.mp hfilled)
  have hs : Serves s' s.page L fun _ => True := by
    rw [new_pins hnew]
    exact Serves.pinAll h.skeleton _
  obtain ⟨it', hpulls⟩ := points_pulls h.skeleton hread hs hp
  exact ⟨it, it', s', hnew, hpulls⟩

theorem Represents.mem_tableTuples (hrep : Represents doHash schema s L M) (h : Skeleton s root L)
    (hint : schema.IntegerKey) : t ∈ tableTuples s.page root L 0 ↔ ∃ key, M key = some t := by
  rw [mem_tableTuples_iff h]
  constructor
  · rintro ⟨id, k, bytes, hcell, rfl⟩
    obtain ⟨v, hv⟩ := hint.hasKey.exists_keyOf bytes
    obtain ⟨key, rfl⟩ := hint.eq_integer hv
    exact ⟨key, hrep.stores.of_cell hcell hv⟩
  · rintro ⟨key, hM⟩
    obtain ⟨id, k, bytes, rfl, hcell, -⟩ := (hrep.stores key t).mp hM
    exact ⟨id, k, bytes, hcell, rfl⟩

/-- The predicate of a lookup: the key column is equal to a constant. -/
def keyIs (schema : Schema) (key : ℤ) : Expression :=
  .comparison (.columnValue schema.keyIdx) (.constant (.integer key)) .kEqual

theorem evaluate_keyIs {key k : ℤ} (hk : keyOf schema t.bytes = some (.integer k)) :
    (keyIs schema key).evaluate t schema = some (.boolean (k == key)) := by
  have hcol : getValue t.bytes schema schema.keyIdx = _ := hk
  simp only [keyIs, Expression.evaluate, hcol, some_bind]
  rfl

theorem eq_toList_of_mem_iff {α : Type} {l : List α} {o : Option α} (hl : l.Nodup) (h : ∀ a, a ∈ l ↔ o = some a) :
    l = o.toList := by
  cases o with
  | none => exact List.eq_nil_iff_forall_not_mem.mpr fun a ha => nomatch (h a).mp ha
  | some b =>
    refine List.perm_singleton.mp ((List.perm_ext_iff_of_nodup hl (List.nodup_singleton b)).mpr fun a => ?_)
    rw [h, List.mem_singleton, Option.some.injEq, eq_comm]

section Run

variable {base : PageStore} {ls : List (TableCall × TableReply)} (hint : schema.IntegerKey) (hsz : 8 ≤ sz)
  (hsz' : sz ≤ 3944) (hbase : base.Quiet) (hroot : root ∈ base.ids) (hcreate : Table.create root base = some s₀)
  (htrace : Trace (BoundedStep al sz doHash schema root) s₀ ls s)
include hint hsz hsz' hbase hroot hcreate htrace

variable (hfilled : SlotsFilled s root)
include hfilled

/-- After every run in which no bucket overflows, and as long as the scan can start, a selection ends exactly if its
predicate can be evaluated for all tuples of the map that the calls made. It returns those of them for which the
predicate is true, and none of them twice. -/
theorem selection_scan : ∃ M it s', Trace (MapStep schema) (fun _ => none) ls M ∧
    LinkHashTableIter.new root s = some (some it, s') ∧ ∀ predicate : Expression,
      ((∃ out scan, Pulls (SelectionExecutor.getNext scanNext predicate schema) (it, s') out scan) ↔
        ∀ key t, M key = some t → predicate.evaluate t schema ≠ none) ∧
      ∀ out scan, Pulls (SelectionExecutor.getNext scanNext predicate schema) (it, s') out scan →
        scan.2 = s' ∧ (out.map Tuple.rid).Nodup ∧
        ∀ t, t ∈ out ↔ (∃ key, M key = some t) ∧ predicate.evaluate t schema = some (.boolean true) := by
  obtain ⟨M, hmap, L, hinv, hrep⟩ := exists_map_of_run hint hsz hsz' hbase hroot hcreate htrace
  obtain ⟨it, it', s', hnew, hpulls⟩ := hinv.scan_pulls hfilled
  have hmem (t) : t ∈ tableTuples s.page root L 0 ↔ ∃ key, M key = some t :=
    hrep.mem_tableTuples hinv.skeleton hint
  refine ⟨M, it, s', hmap, hnew, fun predicate => ⟨?_, fun out scan hout => ?_⟩⟩
  · simp only [SelectionExecutor.getNext_pulls_iff hpulls, exists_and_left, exists_eq, and_true, hmem]
    exact ⟨fun h key t hM => h t ⟨key, hM⟩, fun h t ⟨key, hM⟩ => h key t hM⟩
  · obtain ⟨-, rfl, rfl⟩ := (SelectionExecutor.getNext_pulls_iff hpulls).mp hout
    refine ⟨rfl, (nodup_tableTuples hinv.skeleton).sublist (List.filter_sublist.map _), fun t => ?_⟩
    rw [List.mem_filter, hmem, decide_eq_true_iff]
    rfl

/-- After such a run the selection of a key returns the tuple that `get_tuple` finds through the index, or none. -/
theorem lookup_eq_selection (key : ℤ) : ∃ found it s' scan,
    Table.getTuple doHash schema root (.integer key) s = some (Option.isSome found, found, s) ∧
    LinkHashTableIter.new root s = some (some it, s') ∧
    Pulls (SelectionExecutor.getNext scanNext (keyIs schema key) schema) (it, s') found.toList scan := by
  obtain ⟨M, -, L, hinv, hrep⟩ := exists_map_of_run hint hsz hsz' hbase hroot hcreate htrace
  obtain ⟨it, it', s', hnew, hpulls⟩ := hinv.scan_pulls hfilled
  -- Every tuple of the scan is that of one key, and the predicate compares this key with the other.
  have hkeys (t) (ht : t ∈ tableTuples s.page root L 0) : ∃ k, M k = some t ∧
      (keyIs schema key).evaluate t schema = some (.boolean (k == key)) := by
    obtain ⟨k, hM⟩ := (hrep.mem_tableTuples hinv.skeleton hint).mp ht
    obtain ⟨_, _, bytes, rfl, -, hk⟩ := (hrep.stores k t).mp hM
    exact ⟨k, hM, evaluate_keyIs hk⟩
  refine ⟨M key, it, s', (it', s'), ?_, hnew,
    (SelectionExecutor.getNext_pulls_iff hpulls).mpr ⟨fun t ht => ?_, ?_, rfl⟩⟩
  · rcases TableCall.getTuple_eq_of_find hint.hasKey hinv (.integer key) with
      ⟨hfind, hget⟩ | ⟨id, k, bytes, hfind, hcell, hget⟩
    · rw [hget, (hrep.find_eq_none_iff hinv.skeleton).mp hfind]
      rfl
    · rw [hget, (hrep.of_find hinv.skeleton hfind hcell).1]
      rfl
  · obtain ⟨k, -, hk⟩ := hkeys t ht
    simp [hk]
  · -- No tuple comes twice, so that the selection returns the tuple of the map and no more.
    refine (eq_toList_of_mem_iff (((nodup_tableTuples hinv.skeleton).of_map _).filter _) fun t => ?_).symm
    rw [List.mem_filter, decide_eq_true_iff]
    constructor
    · rintro ⟨ht, hacc⟩
      obtain ⟨k, hM, hk⟩ := hkeys t ht
      obtain rfl : k = key := by simpa [SelectionExecutor.Accepts, hk] using hacc
      exact hM
    · intro hM
      obtain ⟨_, _, bytes, rfl, -, hk⟩ := (hrep.stores key t).mp hM
      refine ⟨(hrep.mem_tableTuples hinv.skeleton hint).mpr ⟨key, hM⟩, ?_⟩
      simp [SelectionExecutor.Accepts, evaluate_keyIs (t := Tuple.ofBytes _ bytes) hk]

end Run

/-! ## A table with two tuples -/

/-- The predicate that is always true selects the tuples of the map. -/
theorem selection_scan_pair : ∃ s₂ M it s',
    Trace (BoundedStep zeroFrames 8 firstByte pairSchema 0) newTable twoInserts s₂ ∧
    Trace (MapStep pairSchema) (fun _ => none) twoInserts M ∧
    LinkHashTableIter.new 0 s₂ = some (some it, s') ∧
    ∃ out scan,
      Pulls (SelectionExecutor.getNext scanNext (.constant (.boolean true)) pairSchema) (it, s') out scan := by
  obtain ⟨s₂, L₂, htrace, hinv, hf, -⟩ := exists_twoInserts
  obtain ⟨M, it, s', hmap, hnew, hsel⟩ := selection_scan ⟨_, rfl, rfl⟩ le_rfl (by norm_num) quiet_onePage (by decide)
    create_newTable htrace (hinv.skeleton.slotsFilled_iff.mpr hf)
  exact ⟨s₂, M, it, s', htrace, hmap, hnew, (hsel _).1.mpr fun _ _ _ => by simp [Expression.evaluate]⟩

/-- One of the two tuples is found in both ways. -/
theorem lookup_eq_selection_pair : ∃ s₂ found it s' scan,
    Trace (BoundedStep zeroFrames 8 firstByte pairSchema 0) newTable twoInserts s₂ ∧
    Table.getTuple firstByte pairSchema 0 (.integer 1) s₂ = some (Option.isSome found, found, s₂) ∧
    LinkHashTableIter.new 0 s₂ = some (some it, s') ∧
    Pulls (SelectionExecutor.getNext scanNext (keyIs pairSchema 1) pairSchema) (it, s') found.toList scan := by
  obtain ⟨s₂, L₂, htrace, hinv, hf, -⟩ := exists_twoInserts
  obtain ⟨found, it, s', scan, hget, hnew, hpulls⟩ := lookup_eq_selection ⟨_, rfl, rfl⟩ le_rfl (by norm_num)
    quiet_onePage (by decide) create_newTable htrace (hinv.skeleton.slotsFilled_iff.mpr hf) 1
  exact ⟨s₂, found, it, s', scan, htrace, hget, hnew, hpulls⟩

end Dawn
