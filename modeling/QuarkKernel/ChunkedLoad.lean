import Mathlib.Data.List.Pairwise

/-! # Copying in chunks to pages that are mapped on the way

A loader that takes chunks one after the other, maps the page in which a chunk
begins to a new frame, and copies the chunk.  A chunk may cross into another page,
which is then whatever an earlier chunk has made of it, and mapping a page again
loses what was there.

`contents` is what is at each address after the chunks done; `contents_eq_value_iff`
says that all chunks are there in the end exactly if no chunk maps a page that an
earlier one has written to. -/
namespace ChunkedLoad

/-- A copy of `len` bytes to address `dst`.  `value` is where they come from; `none`
cannot be read. -/
structure Chunk (β : Type) where
  dst : Nat
  len : Nat
  value : Nat → Option β

variable {β Page : Type} (page : Nat → Page)

/-- The chunk is copied to address `x` among others. -/
def Chunk.Covers (c : Chunk β) (x : Nat) : Prop := c.dst ≤ x ∧ x < c.dst + c.len

instance (c : Chunk β) (x : Nat) : Decidable (c.Covers x) := inferInstanceAs (Decidable (_ ∧ _))

/-- The first `len` bytes of the chunk. -/
def Chunk.upTo (c : Chunk β) (len : Nat) : Chunk β := { c with len }

/-- The pages mapped by the chunks done. -/
def mapped (done : List (Chunk β)) : List Page := done.map fun c => page c.dst

/-- The byte at each address after the chunks done, the latest first; `none` is
whatever the frame held before. -/
def contents [DecidableEq Page] : List (Chunk β) → Nat → Option β
  | [], _ => none
  | c :: done, x =>
      if c.Covers x then c.value (x - c.dst)
      else if page x = page c.dst then none
      else contents done x

/-- The chunk can be read, and goes to pages that are mapped by then. -/
def Reaches (done : List (Chunk β)) (c : Chunk β) : Prop :=
  ∀ x, c.Covers x → (c.value (x - c.dst)).isSome ∧ page x ∈ mapped page (c :: done)

/-- All the chunks do, one after the other. -/
def AllReach : List (Chunk β) → List (Chunk β) → Prop
  | _, [] => True
  | done, c :: rest => Reaches page done c ∧ AllReach (c :: done) rest

/-- No chunk maps a page that an earlier one has written to. -/
def KeepsApart (chunks : List (Chunk β)) : Prop :=
  chunks.Pairwise fun c c' => ∀ x, c.Covers x → page x ≠ page c'.dst

/-- No address is written twice. -/
def Disjoint (chunks : List (Chunk β)) : Prop :=
  chunks.Pairwise fun c c' => ∀ x, c.Covers x → ¬ c'.Covers x

variable {page}

theorem allReach_append {done cs cs' : List (Chunk β)} :
    AllReach page done (cs ++ cs') ↔
      AllReach page done cs ∧ AllReach page (cs.reverse ++ done) cs' := by
  induction cs generalizing done with
  | nil => exact ⟨fun h => ⟨trivial, h⟩, fun h => h.2⟩
  | cons c cs ih =>
    rw [List.cons_append, AllReach, AllReach, ih, and_assoc, List.reverse_cons, List.append_assoc]
    rfl

/-- What chunks that reach write to is mapped in the end. -/
theorem mem_mapped_of_allReach {done cs : List (Chunk β)} (h : AllReach page done cs)
    {c : Chunk β} {x : Nat} (hc : c ∈ cs) (hx : c.Covers x) :
    (c.value (x - c.dst)).isSome ∧ page x ∈ mapped page (cs.reverse ++ done) := by
  obtain ⟨pre, post, rfl⟩ := List.append_of_mem hc
  obtain ⟨-, hreach, -⟩ := allReach_append.mp h
  obtain ⟨hvalue, hin⟩ := hreach x hx
  refine ⟨hvalue, ?_⟩
  rw [List.reverse_append, List.reverse_cons, List.append_assoc, List.append_assoc, mapped,
    List.map_append]
  exact List.mem_append_right _ hin

/-- A relation between every element and those after it. -/
theorem pairwise_of_splits {R : Chunk β → Chunk β → Prop} {chunks : List (Chunk β)}
    (h : ∀ pre c post, chunks = pre ++ c :: post → ∀ c', c' ∈ post → R c c') :
    chunks.Pairwise R := by
  induction chunks with
  | nil => exact .nil
  | cons c chunks ih =>
    refine List.pairwise_cons.mpr ⟨h [] c chunks rfl, ih ?_⟩
    rintro pre c' post rfl
    exact h (c :: pre) c' post rfl

section Contents
variable [DecidableEq Page] {x : Nat}

/-- A chunk of which nothing has been copied yet: its page is new. -/
theorem contents_upTo_zero (c : Chunk β) (done : List (Chunk β)) (x : Nat) :
    contents page (c.upTo 0 :: done) x =
      if page x = page c.dst then none else contents page done x := by
  have hcov : ¬ (c.upTo 0).Covers x := by
    rintro ⟨hle, hlt⟩
    exact absurd hlt (Nat.not_lt.mpr hle)
  rw [contents, if_neg hcov]
  rfl

/-- One more byte is copied. -/
theorem contents_upTo_succ (c : Chunk β) (done : List (Chunk β)) (i x : Nat) :
    contents page (c.upTo (i + 1) :: done) x =
      if x = c.dst + i then c.value i else contents page (c.upTo i :: done) x := by
  rw [contents, contents]
  have hnew : (c.upTo (i + 1)).Covers x ↔ x = c.dst + i ∨ (c.upTo i).Covers x := by
    unfold Chunk.Covers Chunk.upTo
    dsimp only
    omega
  by_cases hx : x = c.dst + i
  · rw [if_pos hx, if_pos (hnew.mpr (.inl hx)), hx]
    show c.value (c.dst + i - c.dst) = _
    rw [Nat.add_sub_cancel_left]
  · rw [if_neg hx]
    by_cases hold : (c.upTo i).Covers x
    · rw [if_pos hold, if_pos (hnew.mpr (.inr hold))]
      rfl
    · rw [if_neg hold, if_neg fun h => (hnew.mp h).elim hx hold]
      rfl

/-- Chunks that neither write to `x` nor map its page. -/
theorem contents_append_of_ne {later done : List (Chunk β)}
    (h : ∀ c, c ∈ later → ¬ c.Covers x ∧ page x ≠ page c.dst) :
    contents page (later ++ done) x = contents page done x := by
  induction later with
  | nil => rfl
  | cons c later ih =>
    obtain ⟨hcov, hpage⟩ := h c (List.mem_cons_self ..)
    rw [List.cons_append, contents, if_neg hcov, if_neg hpage]
    exact ih fun c hc => h c (List.mem_cons_of_mem _ hc)

/-- Chunks that do not write to `x`, but one of them maps its page. -/
theorem contents_append_of_mapped {later done : List (Chunk β)}
    (h : ∀ c, c ∈ later → ¬ c.Covers x) (hpage : ∃ c, c ∈ later ∧ page x = page c.dst) :
    contents page (later ++ done) x = none := by
  induction later with
  | nil =>
    obtain ⟨c, hc, -⟩ := hpage
    cases hc
  | cons c later ih =>
    rw [List.cons_append, contents, if_neg (h c (List.mem_cons_self ..))]
    by_cases hc : page x = page c.dst
    · rw [if_pos hc]
    · rw [if_neg hc]
      refine ih (fun c hc => h c (List.mem_cons_of_mem _ hc)) ?_
      obtain ⟨c', hc', hpage'⟩ := hpage
      rcases List.mem_cons.mp hc' with rfl | hc'
      · exact absurd hpage' hc
      · exact ⟨c', hc', hpage'⟩

/-- What is left in the end of chunk `c`. -/
theorem contents_reverse {pre post : List (Chunk β)} {c : Chunk β}
    (hdisjoint : Disjoint (pre ++ c :: post)) (hx : c.Covers x) :
    contents page (pre ++ c :: post).reverse x =
      if ∃ c', c' ∈ post ∧ page x = page c'.dst then none else c.value (x - c.dst) := by
  have hpost : ∀ c', c' ∈ post.reverse → ¬ c'.Covers x := by
    intro c' hc'
    have htail := (List.pairwise_append.mp hdisjoint).2.1
    exact (List.pairwise_cons.mp htail).1 c' (List.mem_reverse.mp hc') x hx
  rw [List.reverse_append, List.reverse_cons, List.append_assoc]
  by_cases hmap : ∃ c', c' ∈ post ∧ page x = page c'.dst
  · rw [if_pos hmap]
    obtain ⟨c', hc', hpage⟩ := hmap
    exact contents_append_of_mapped hpost ⟨c', List.mem_reverse.mpr hc', hpage⟩
  · rw [if_neg hmap, contents_append_of_ne]
    · rw [List.singleton_append, contents, if_pos hx]
    · intro c' hc'
      exact ⟨hpost c' hc', fun hpage => hmap ⟨c', List.mem_reverse.mp hc', hpage⟩⟩

/-- What is known in the end has been copied. -/
theorem contents_eq_value {chunks : List (Chunk β)} {c : Chunk β} {b : β}
    (hdisjoint : Disjoint chunks) (hc : c ∈ chunks) (hx : c.Covers x)
    (hb : contents page chunks.reverse x = some b) : c.value (x - c.dst) = some b := by
  obtain ⟨pre, post, rfl⟩ := List.append_of_mem hc
  rw [contents_reverse hdisjoint hx] at hb
  split at hb
  · cases hb
  · exact hb

/-- **All chunks are there in the end** exactly if they keep apart. -/
theorem contents_eq_value_iff {chunks : List (Chunk β)} (hdisjoint : Disjoint chunks)
    (hvalue : ∀ c x, c ∈ chunks → c.Covers x → (c.value (x - c.dst)).isSome) :
    (∀ c x, c ∈ chunks → c.Covers x →
      contents page chunks.reverse x = c.value (x - c.dst)) ↔ KeepsApart page chunks := by
  constructor
  · intro h
    apply pairwise_of_splits
    rintro pre c post rfl c' hc' x hx hpage
    have hmem : c ∈ pre ++ c :: post := List.mem_append_right _ (List.mem_cons_self ..)
    have hsome := hvalue c x hmem hx
    rw [← h c x hmem hx, contents_reverse hdisjoint hx, if_pos ⟨c', hc', hpage⟩] at hsome
    cases hsome
  · intro h c x hc hx
    obtain ⟨pre, post, rfl⟩ := List.append_of_mem hc
    rw [contents_reverse hdisjoint hx, if_neg]
    rintro ⟨c', hc', hpage⟩
    have htail := (List.pairwise_append.mp h).2.1
    exact (List.pairwise_cons.mp htail).1 c' hc' x hx hpage

end Contents

end ChunkedLoad
