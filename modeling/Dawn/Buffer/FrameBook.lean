import Dawn.Buffer.PoolInvariant

/-!
# The books of a pool that threads share

What the safety of a shared pool rests on, without the bytes of the pages, the replacer and the disk: the map
from page ids to frames, the free frames, the page id and the pin count of each frame, the frames that have
been given to a new page and are not yet set up, and who holds which page.

The books are in order (`Sound`) if a mapped page is in its frame and its pin count is the number of its
holders, or its frame is yet to be set up and nobody holds it. Each of the changes that the pool makes keeps
them in order, under the condition stated with it.
-/

namespace Dawn

open Function

open BufferPoolManager

/-- The books of a pool of `n` frames and threads `θ`. -/
structure FrameBook (θ : Type) (n : ℕ) where
  /-- `mapping_`. -/
  mapping : ℤ → Option (Fin n)
  /-- `free_list_`. -/
  free : List (Fin n)
  /-- `page_id_` of the frames. -/
  pageId : Fin n → ℤ
  /-- `pin_count_` of the frames. -/
  pinCount : Fin n → ℤ
  /-- The frame that a thread has taken for a new page and has yet to set up. -/
  pending : θ → Option (ℤ × Fin n)
  /-- The pages that were handed out and not given back, with the frames that were handed out. -/
  held : Multiset (θ × ℤ × Fin n)

namespace FrameBook

variable {θ : Type} {n : ℕ}

/-- How often a page is held. -/
def pins (v : FrameBook θ n) (p : ℤ) : ℕ := BufferPoolManager.pins (v.held.map Prod.snd) p

/-- The books are in order. -/
structure Sound (v : FrameBook θ n) : Prop where
  nonneg : ∀ {p f}, v.mapping p = some f → 0 ≤ p
  frames : FreeOrUsed v.free v.mapping
  free_pageId : ∀ {f}, f ∈ v.free → v.pageId f = invalidPageId
  pending_mapping : ∀ {t p f}, v.pending t = some (p, f) → v.mapping p = some f
  pending_pageId : ∀ {t p f}, v.pending t = some (p, f) → v.pageId f = invalidPageId
  pending_inj : ∀ {t u p f}, v.pending t = some (p, f) → v.pending u = some (p, f) → t = u
  pinCount : ∀ {p f}, v.mapping p = some f → v.pageId f = p → v.pinCount f = v.pins p
  pageId : ∀ {p f}, v.mapping p = some f → v.pageId f ≠ p → ∃ t, v.pending t = some (p, f)
  held : ∀ {t p f}, (t, p, f) ∈ v.held → v.mapping p = some f ∧ v.pageId f = p

section Pins

variable [DecidableEq θ] {v : FrameBook θ n} {t : θ} {p q : ℤ} {f : Fin n}

omit [DecidableEq θ] in
theorem pins_pos (h : (t, p, f) ∈ v.held) : 0 < v.pins p :=
  BufferPoolManager.pins_pos (Multiset.mem_map_of_mem Prod.snd h)

omit [DecidableEq θ] in
theorem exists_held (h : v.pins p ≠ 0) : ∃ t f, (t, p, f) ∈ v.held := by
  have hmem : p ∈ (v.held.map Prod.snd).map Prod.fst := Multiset.count_ne_zero.mp h
  simp only [Multiset.mem_map, Prod.exists] at hmem
  obtain ⟨_, f, ⟨t, p', f', hheld, heq⟩, rfl⟩ := hmem
  obtain ⟨rfl, rfl⟩ := Prod.mk.inj heq
  exact ⟨t, _, hheld⟩

theorem map_erase (h : (t, p, f) ∈ v.held) :
    (v.held.erase (t, p, f)).map Prod.snd = (v.held.map Prod.snd).erase (p, f) :=
  Multiset.map_erase_of_mem _ _ h

end Pins

/-! ## The changes -/

section Changes

variable [DecidableEq θ] (v : FrameBook θ n) (t : θ) (p : ℤ) (f : Fin n)

/-- A page in a frame is pinned and handed out. -/
def pin : FrameBook θ n :=
  { v with pinCount := Function.update v.pinCount f (v.pinCount f + 1), held := (t, p, f) ::ₘ v.held }

/-- A page is given back. -/
def unpin : FrameBook θ n :=
  { v with pinCount := Function.update v.pinCount f (v.pinCount f - 1), held := v.held.erase (t, p, f) }

/-- A page is evicted from a frame. -/
def evict : FrameBook θ n :=
  { v with
    mapping := Function.update v.mapping p none
    free := v.free ++ [f]
    pageId := Function.update v.pageId f invalidPageId }

/-- A page is read into a free frame and handed out. -/
def load (rest : List (Fin n)) : FrameBook θ n :=
  { v with
    mapping := Function.update v.mapping p (some f)
    free := rest
    pageId := Function.update v.pageId f p
    pinCount := Function.update v.pinCount f 1
    held := (t, p, f) ::ₘ v.held }

/-- A free frame is taken for a new page. -/
def take (rest : List (Fin n)) : FrameBook θ n :=
  { v with
    mapping := Function.update v.mapping p (some f)
    free := rest
    pending := Function.update v.pending t (some (p, f)) }

/-- The frame of a new page is set up, and the page is handed out. -/
def setUp : FrameBook θ n :=
  { v with
    pageId := Function.update v.pageId f p
    pinCount := Function.update v.pinCount f 1
    pending := Function.update v.pending t none
    held := (t, p, f) ::ₘ v.held }

end Changes

namespace Sound

variable {v : FrameBook θ n} (h : Sound v) {t : θ} {p q : ℤ} {f g : Fin n} {rest : List (Fin n)}
include h

theorem pending_ne (ht : v.pending t = some (p, f)) : v.pageId f ≠ p := by
  have := h.nonneg (h.pending_mapping ht)
  rw [h.pending_pageId ht]
  simp only [invalidPageId]
  omega

omit h in
theorem ne_of_frame_ne (hq : v.mapping q = some g) (hm : v.mapping p = some f) (hne : g ≠ f) : q ≠ p := by
  rintro rfl
  exact hne (Option.some_injective _ (hq.symm.trans hm))

theorem ne_of_free (hq : v.mapping q = some g) (hf : f ∈ v.free) : g ≠ f := by
  rintro rfl
  exact (h.frames.mem_free g).mp hf q hq

variable [DecidableEq θ]

omit [DecidableEq θ] in
theorem pin (hm : v.mapping p = some f) (hid : v.pageId f = p) : Sound (v.pin t p f) where
  nonneg := h.nonneg
  frames := h.frames
  free_pageId := h.free_pageId
  pending_mapping := h.pending_mapping
  pending_pageId := h.pending_pageId
  pending_inj := h.pending_inj
  pinCount {q g} hq hg := by
    have hold := h.pinCount hq hg
    rcases eq_or_ne g f with rfl | hne
    · obtain rfl := h.frames.inj hq hm
      simp only [FrameBook.pin, update_self, hold]
      simp [pins, pins_cons_self]
    · have hqp : q ≠ p := ne_of_frame_ne (v := v) hq hm hne
      simp only [FrameBook.pin, update_of_ne hne, hold]
      simp [pins, pins_cons_of_ne hqp]
  pageId := h.pageId
  held {u q g} hmem := by
    rcases Multiset.mem_cons.mp hmem with heq | hmem
    · cases heq
      exact ⟨hm, hid⟩
    · exact h.held hmem

theorem unpin (hheld : (t, p, f) ∈ v.held) : Sound (v.unpin t p f) where
  nonneg := h.nonneg
  frames := h.frames
  free_pageId := h.free_pageId
  pending_mapping := h.pending_mapping
  pending_pageId := h.pending_pageId
  pending_inj := h.pending_inj
  pinCount {q g} hq hg := by
    have hold := h.pinCount hq hg
    obtain ⟨hm, hid⟩ := h.held hheld
    have hpos := pins_pos hheld
    have hmem : (p, f) ∈ v.held.map Prod.snd := Multiset.mem_map_of_mem Prod.snd hheld
    rcases eq_or_ne g f with rfl | hne
    · obtain rfl := h.frames.inj hq hm
      simp only [FrameBook.unpin, update_self, hold]
      simp only [pins, map_erase hheld, pins_erase_self hmem]
      simp only [pins] at hpos
      omega
    · have hqp : q ≠ p := ne_of_frame_ne (v := v) hq hm hne
      simp only [FrameBook.unpin, update_of_ne hne, hold]
      simp only [pins, map_erase hheld, pins_erase_of_ne hqp]
  pageId := h.pageId
  held {u q g} hmem := h.held (Multiset.mem_of_mem_erase hmem)

omit [DecidableEq θ] in
theorem evict (hm : v.mapping p = some f) (hid : v.pageId f = p) (hpin : v.pinCount f = 0) : Sound (v.evict p f) where
  nonneg hq := h.nonneg (h.frames.update_none_cases hm hq).2.2
  frames := h.frames.leave hm
  free_pageId {g} hg := by
    rcases eq_or_ne g f with rfl | hne
    · simp [FrameBook.evict]
    · simp only [FrameBook.evict, update_of_ne hne]
      exact h.free_pageId (by simpa [FrameBook.evict, hne] using hg)
  pending_mapping {u q g} hu := by
    have hold := h.pending_mapping hu
    have hqp : q ≠ p := by
      rintro rfl
      obtain rfl : g = f := by simpa [hm] using hold.symm
      exact h.pending_ne hu hid
    simpa [FrameBook.evict, hqp] using hold
  pending_pageId {u q g} hu := by
    rcases eq_or_ne g f with rfl | hne
    · simp [FrameBook.evict]
    · simpa [FrameBook.evict, hne] using h.pending_pageId hu
  pending_inj := h.pending_inj
  pinCount {q g} hq hg := by
    obtain ⟨-, hne, hq⟩ := h.frames.update_none_cases hm hq
    exact h.pinCount hq (by simpa [FrameBook.evict, hne] using hg)
  pageId {q g} hq hg := by
    obtain ⟨-, hne, hq⟩ := h.frames.update_none_cases hm hq
    exact h.pageId hq (by simpa [FrameBook.evict, hne] using hg)
  held {u q g} hmem := by
    obtain ⟨hq, hg⟩ := h.held hmem
    -- The page that is evicted has no holder.
    have hqp : q ≠ p := by
      rintro rfl
      have hpos : 0 < v.pins q := pins_pos (v := v) hmem
      have hcount := h.pinCount hm hid
      omega
    have hne : g ≠ f := fun he => hqp (h.frames.inj (he ▸ hq) hm)
    exact ⟨by simpa [FrameBook.evict, hqp] using hq, by simpa [FrameBook.evict, hne] using hg⟩

theorem take (hfree : v.free = f :: rest) (hm : v.mapping p = none) (h0 : 0 ≤ p) (ht : v.pending t = none) :
    Sound (v.take t p f rest) := by
  have hf : f ∈ v.free := hfree ▸ List.mem_cons_self
  have hmapped : ∀ {q g}, v.mapping q = some g → q ≠ p ∧ g ≠ f := fun {q g} hq =>
    ⟨fun he => by simp [he, hm] at hq, h.ne_of_free hq hf⟩
  have hfid : v.pageId f ≠ p := by
    rw [h.free_pageId hf]
    simp only [invalidPageId]
    omega
  have hmap : ∀ {q g}, (v.take t p f rest).mapping q = some g →
      (q = p ∧ g = f) ∨ (q ≠ p ∧ g ≠ f ∧ v.mapping q = some g) := h.frames.update_some_cases hf
  have hpend : ∀ {u q g}, (v.take t p f rest).pending u = some (q, g) →
      (u = t ∧ q = p ∧ g = f) ∨ (u ≠ t ∧ v.pending u = some (q, g)) := fun {u q g} hu => by
    simp only [FrameBook.take, update_apply] at hu
    split_ifs at hu with hut
    · obtain ⟨rfl, rfl⟩ := Prod.mk.inj (Option.some_injective _ hu)
      exact Or.inl ⟨hut, rfl, rfl⟩
    · exact Or.inr ⟨hut, hu⟩
  refine ⟨fun hq => ?_, h.frames.enter hfree hm,
    fun {g} hg => h.free_pageId (hfree ▸ List.mem_cons_of_mem _ hg), fun {u q g} hu => ?_, fun {u q g} hu => ?_,
    fun {u w q g} hu hw => ?_, fun {q g} hq hid => ?_, fun {q g} hq hid => ?_, fun {u q g} hmem => ?_⟩
  · rcases hmap hq with ⟨rfl, -⟩ | ⟨-, -, hq⟩
    · exact h0
    · exact h.nonneg hq
  · rcases hpend hu with ⟨-, rfl, rfl⟩ | ⟨-, hu⟩
    · simp [FrameBook.take]
    · have hq := h.pending_mapping hu
      simpa [FrameBook.take, (hmapped hq).1] using hq
  · rcases hpend hu with ⟨-, rfl, rfl⟩ | ⟨-, hu⟩
    · exact h.free_pageId hf
    · exact h.pending_pageId hu
  · rcases hpend hu with ⟨rfl, rfl, rfl⟩ | ⟨-, hu'⟩ <;> rcases hpend hw with ⟨rfl, he, -⟩ | ⟨-, hw'⟩
    · rfl
    · exact absurd rfl (hmapped (h.pending_mapping hw')).1
    · exact absurd he (hmapped (h.pending_mapping hu')).1
    · exact h.pending_inj hu' hw'
  · rcases hmap hq with ⟨rfl, rfl⟩ | ⟨-, -, hq⟩
    · exact absurd hid hfid
    · exact h.pinCount hq hid
  · rcases hmap hq with ⟨rfl, rfl⟩ | ⟨-, -, hq⟩
    · exact ⟨t, by simp [FrameBook.take]⟩
    · obtain ⟨u, hu⟩ := h.pageId hq hid
      have hut : u ≠ t := fun he => by simp [he, ht] at hu
      exact ⟨u, by simpa [FrameBook.take, hut] using hu⟩
  · obtain ⟨hq, hid⟩ := h.held hmem
    exact ⟨by simpa [FrameBook.take, (hmapped hq).1] using hq, hid⟩

theorem setUp (ht : v.pending t = some (p, f)) : Sound (v.setUp t p f) := by
  have hm := h.pending_mapping ht
  have hne : ∀ {q g}, v.mapping q = some g → (q, g) ≠ (p, f) → q ≠ p ∧ g ≠ f := fun {q g} hq hneq =>
    ⟨fun he => hneq (by subst he; rw [Option.some_injective _ (hq.symm.trans hm)]),
      fun he => hneq (by subst he; rw [h.frames.inj hq hm])⟩
  have hpend : ∀ {u q g}, (v.setUp t p f).pending u = some (q, g) →
      u ≠ t ∧ v.pending u = some (q, g) ∧ g ≠ f := fun {u q g} hu => by
    simp only [FrameBook.setUp, update_apply] at hu
    split_ifs at hu with hut
    refine ⟨hut, hu, (hne (h.pending_mapping hu) fun he => hut ?_).2⟩
    exact h.pending_inj (he ▸ hu) ht
  have hzero : v.pins p = 0 := by
    by_contra hpins
    obtain ⟨u, g, hheld⟩ := exists_held hpins
    obtain ⟨hg, hid⟩ := h.held hheld
    obtain rfl := Option.some_injective _ (hg.symm.trans hm)
    exact h.pending_ne ht hid
  refine ⟨h.nonneg, h.frames, fun {g} hg => ?_, fun hu => h.pending_mapping (hpend hu).2.1,
    fun {u q g} hu => ?_, fun hu hw => h.pending_inj (hpend hu).2.1 (hpend hw).2.1, fun {q g} hq hid => ?_,
    fun {q g} hq hid => ?_, fun {u q g} hmem => ?_⟩
  · have hgf : g ≠ f := fun he => h.ne_of_free hm hg he.symm
    simpa [FrameBook.setUp, hgf] using h.free_pageId hg
  · obtain ⟨-, hu, hgf⟩ := hpend hu
    simpa [FrameBook.setUp, hgf] using h.pending_pageId hu
  · simp only [pins] at hzero
    by_cases heq : (q, g) = (p, f)
    · obtain ⟨rfl, rfl⟩ := Prod.mk.inj heq
      simp [FrameBook.setUp, pins, pins_cons_self, hzero]
    · obtain ⟨hqp, hgf⟩ := hne hq heq
      have hold := h.pinCount hq (by simpa [FrameBook.setUp, hgf] using hid)
      simp [FrameBook.setUp, pins, pins_cons_of_ne hqp, hgf, hold]
  · by_cases heq : (q, g) = (p, f)
    · obtain ⟨rfl, rfl⟩ := Prod.mk.inj heq
      simp [FrameBook.setUp] at hid
    · obtain ⟨hqp, hgf⟩ := hne hq heq
      obtain ⟨u, hu⟩ := h.pageId hq (by simpa [FrameBook.setUp, hgf] using hid)
      have hut : u ≠ t := fun he => heq (Option.some_injective _ (hu.symm.trans (he ▸ ht)))
      exact ⟨u, by simpa [FrameBook.setUp, hut] using hu⟩
  · rcases Multiset.mem_cons.mp hmem with heq | hmem
    · cases heq
      exact ⟨hm, by simp [FrameBook.setUp]⟩
    · obtain ⟨hq, hid⟩ := h.held hmem
      by_cases heq : (q, g) = (p, f)
      · obtain ⟨rfl, rfl⟩ := Prod.mk.inj heq
        exact ⟨hm, by simp [FrameBook.setUp]⟩
      · exact ⟨hq, by simpa [FrameBook.setUp, (hne hq heq).2] using hid⟩

theorem load (hfree : v.free = f :: rest) (hm : v.mapping p = none) (h0 : 0 ≤ p) (ht : v.pending t = none) :
    Sound (v.load t p f rest) := by
  have hset := (h.take hfree hm h0 ht).setUp (t := t) (p := p) (f := f) (by simp [FrameBook.take])
  have hpend : update v.pending t none = v.pending := by rw [← ht, update_eq_self]
  simpa only [FrameBook.setUp, FrameBook.take, FrameBook.load, update_idem, hpend] using hset

end Sound

end FrameBook

end Dawn
