import Mathlib.Data.List.Nodup
import Mathlib.Data.List.Sort
import S3o.Client
import S3o.Results

/-!
# Cutting a body into pieces

The chunks of an upload and the ranges of a download cut a body at the multiples of the chunk size. No
sum of the two loops wraps, and the pieces in order are the body again.

* `flatten_windows`: the windows between consecutive cuts of a list;
* **`interval_eq`**: the intervals of the source;
* **`slices_flatten`**: the pieces in order are the body;
* **`manifest_eq`**: a manifest that the service accepts lists every chunk in order.
-/

namespace S3o

/-! ## Windows of a list -/

section

variable {α : Type}

/-- The members of `l` from `a` to `b`. -/
def window (l : List α) (a b : ℕ) : List α := (l.drop a).take (b - a)

theorem window_append (l : List α) {a b c : ℕ} (hab : a ≤ b) (hbc : b ≤ c) :
    window l a b ++ window l b c = window l a c := by
  unfold window
  have hc : c - a = (b - a) + (c - b) := by omega
  have hb : b = a + (b - a) := by omega
  rw [hc, List.take_add, List.drop_drop, ← hb]

/-- **The windows between consecutive cuts.** -/
theorem flatten_windows (l : List α) (cut : ℕ → ℕ) (hcut : ∀ i, cut i ≤ cut (i + 1)) (n : ℕ) :
    ((List.range n).map fun i => window l (cut i) (cut (i + 1))).flatten =
      window l (cut 0) (cut n) := by
  have hmono : ∀ n, cut 0 ≤ cut n := by
    intro n
    induction n with
    | zero => exact le_rfl
    | succ n ih => exact ih.trans (hcut n)
  induction n with
  | zero => simp [window]
  | succ n ih =>
    rw [List.range_succ, List.map_append, List.flatten_append, ih, List.map_singleton,
      List.flatten_singleton, window_append l (hmono n) (hcut n)]

theorem window_all (l : List α) : window l 0 l.length = l := by
  unfold window
  rw [List.drop_zero, Nat.sub_zero, List.take_length]

theorem length_window {l : List α} {a b : ℕ} (h : b ≤ l.length) : (window l a b).length = b - a := by
  unfold window
  rw [List.length_take, List.length_drop]
  omega

theorem window_append_left {l : List α} (l' : List α) {a b : ℕ} (hab : a ≤ b) (h : b ≤ l.length) :
    window (l ++ l') a b = window l a b := by
  unfold window
  rw [List.drop_append_of_le_length (hab.trans h), List.take_append_of_le_length]
  rw [List.length_drop]
  omega

theorem window_append_right (l l' : List α) :
    window (l ++ l') l.length (l.length + l'.length) = l' := by
  unfold window
  rw [List.drop_left, Nat.add_sub_cancel_left, List.take_length]

/-- **Lists of the lengths of the windows are the windows of what they make up.** -/
theorem windows_flatten (cut : ℕ → ℕ) (h₀ : cut 0 = 0) (hcut : ∀ i, cut i ≤ cut (i + 1))
    (b : ℕ → List α) {n : ℕ} (hb : ∀ j, j < n → (b j).length = cut (j + 1) - cut j) :
    ((List.range n).map b).flatten.length = cut n ∧
      ∀ j, j < n → window ((List.range n).map b).flatten (cut j) (cut (j + 1)) = b j := by
  induction n with
  | zero => exact ⟨h₀.symm, fun j hj => absurd hj (Nat.not_lt_zero j)⟩
  | succ n ih =>
    obtain ⟨hlen, hwin⟩ := ih fun j hj => hb j (hj.trans (Nat.lt_succ_self n))
    have hn := hb n (Nat.lt_succ_self n)
    have hle := hcut n
    have hmono : ∀ j, j < n → cut (j + 1) ≤ cut n := by
      intro j hj
      exact monotone_nat_of_le_succ hcut hj
    rw [List.range_succ, List.map_append, List.flatten_append, List.map_singleton, List.flatten_singleton]
    constructor
    · rw [List.length_append, hlen, hn]
      omega
    · intro j hj
      rcases Nat.lt_succ_iff_lt_or_eq.mp hj with hj | rfl
      · rw [window_append_left _ (hcut j) (hlen ▸ hmono j hj)]
        exact hwin j hj
      · have hend : cut (j + 1) = cut j + (b j).length := by omega
        rw [hend, ← hlen]
        exact window_append_right _ _

end

/-! ## The loops of the source -/

section

variable {size total i : ℕ}

theorem lt_of_lt_divCeil (hs : 0 < size) (hi : i < divCeil total size) : i * size < total := by
  unfold divCeil at hi
  have hdiv := Nat.div_add_mod total size
  have hcomm := Nat.mul_comm size (total / size)
  split_ifs at hi with h0
  · have hle : (i + 1) * size ≤ total / size * size := Nat.mul_le_mul_right size hi
    have hsucc : (i + 1) * size = i * size + size := Nat.succ_mul i size
    omega
  · have hle : i * size ≤ total / size * size := Nat.mul_le_mul_right size (by omega)
    omega

theorem le_divCeil_mul (hs : 0 < size) : total ≤ divCeil total size * size := by
  unfold divCeil
  have hdiv := Nat.div_add_mod total size
  have hcomm := Nat.mul_comm size (total / size)
  have hmod := Nat.mod_lt total hs
  split_ifs with h0
  · omega
  · have hsucc : (total / size + 1) * size = total / size * size + size := Nat.succ_mul _ size
    omega

/-- The sum that ends a piece is within the word: the piece is the first one, or starts below the
length and is not longer than what is before it. -/
theorem stop_lt (hs : 0 < size) (hsize : size < 2 ^ 64) (ht : total ≤ isizeMax)
    (hi : i < divCeil total size) : i * size + size < 2 ^ 64 := by
  have hlt := lt_of_lt_divCeil hs hi
  have hmax : isizeMax = 2 ^ 63 - 1 := rfl
  rcases Nat.eq_zero_or_pos i with rfl | hpos
  · omega
  · have : size ≤ i * size := Nat.le_mul_of_pos_left size hpos
    omega

/-- **The intervals of the source.** Nothing wraps. -/
theorem interval_eq (hs : 0 < size) (hsize : size < 2 ^ 64) (ht : total ≤ isizeMax)
    (hi : i < divCeil total size) :
    interval size total i = (min (i * size) total, min ((i + 1) * size) total) ∧ i * size < total := by
  have hlt := lt_of_lt_divCeil hs hi
  have hsum := stop_lt hs hsize ht hi
  have hstart : i * size < 2 ^ 64 := (Nat.le_add_right _ _).trans_lt hsum
  refine ⟨?_, hlt⟩
  unfold interval wrap
  rw [Nat.mod_eq_of_lt hstart]
  dsimp only
  rw [Nat.mod_eq_of_lt hsum, Nat.succ_mul, Nat.min_eq_left hlt.le]

/-- **The pieces in order are the body.** -/
theorem slices_flatten (hs : 0 < size) (hsize : size < 2 ^ 64) (body : Bytes)
    (hb : body.length ≤ isizeMax) :
    ((List.range (divCeil body.length size)).map fun i =>
      slice body (interval size body.length i)).flatten = body := by
  have hslice : ∀ i ∈ List.range (divCeil body.length size),
      slice body (interval size body.length i) =
        window body (min (i * size) body.length) (min ((i + 1) * size) body.length) := by
    intro i hi
    rw [(interval_eq hs hsize hb (List.mem_range.mp hi)).1]
    rfl
  have hcut : ∀ i, min (i * size) body.length ≤ min ((i + 1) * size) body.length := by
    intro i
    have hsucc : (i + 1) * size = i * size + size := Nat.succ_mul i size
    omega
  have hend : min (divCeil body.length size * size) body.length = body.length :=
    Nat.min_eq_right (le_divCeil_mul hs)
  rw [List.map_congr_left hslice, flatten_windows body (fun i => min (i * size) body.length) hcut]
  show window body (min (0 * size) body.length) (min (divCeil body.length size * size) body.length) = body
  rw [hend, Nat.zero_mul, Nat.zero_min]
  exact window_all body

end

/-! ## The chunks of an upload -/

section

variable {κ : Type} (self : S3Client κ) (body : Body)

theorem chunkSize_pos : 0 < self.config.chunkSize.toNat := by
  have := self.valid.chunk
  omega

/-- **The chunks in order are the body.** -/
theorem chunks_flatten : ((self.chunks body.data).map Prod.snd).flatten = body.data := by
  unfold S3Client.chunks
  rw [List.map_map]
  exact slices_flatten (chunkSize_pos self) self.config.chunkSize.toNat_lt body.data body.len_le

theorem chunks_fst : (self.chunks body.data).map Prod.fst =
    (List.range (divCeil body.data.length self.config.chunkSize.toNat)).map fun i => asI32 (i + 1) := by
  simp only [S3Client.chunks, List.map_map, Function.comp_def]

end

/-- The highest part number. -/
def maxParts : ℕ := 10000

theorem asI32_of_lt {i : ℕ} (hi : i + 1 < 2 ^ 31) : asI32 (i + 1) = i + 1 := by
  have h : asI32 (i + 1) = ((i + 1 : ℕ) : ℤ) := by
    refine Int.bmod_eq_of_le ?_ ?_
    · omega
    · omega
  rw [h]
  push_cast
  rfl

theorem asI32_succ {i : ℕ} (hi : i ≤ maxParts) : asI32 (i + 1) = i + 1 := by
  have hi : i ≤ 10000 := hi
  exact asI32_of_lt (by omega)

/-- **A manifest of every part number, ascending and in bounds, lists the chunks in order.** -/
theorem manifest_eq {C L : List (ℤ × Bytes)} {n : ℕ}
    (hC : C.map Prod.fst = (List.range n).map fun i => asI32 (i + 1))
    (hperm : (L.map Prod.fst).Perm (C.map Prod.fst)) (hmem : ∀ x ∈ L, x ∈ C)
    (hasc : (L.map Prod.fst).Pairwise (· < ·)) (hmax : ∀ x ∈ L, x.1 ≤ maxParts) : L = C := by
  have hn : n ≤ maxParts := by
    by_contra hlt
    have hin : asI32 (maxParts + 1) ∈ C.map Prod.fst := by
      rw [hC]
      exact List.mem_map.mpr ⟨maxParts, List.mem_range.mpr (by omega), rfl⟩
    obtain ⟨x, hx, hfst⟩ := List.mem_map.mp (hperm.mem_iff.mpr hin)
    have hle := hmax x hx
    rw [hfst, asI32_succ le_rfl] at hle
    omega
  have hnum : C.map Prod.fst = (List.range n).map fun i : ℕ => ((i : ℤ) + 1) := by
    rw [hC]
    refine List.map_congr_left fun i hi => asI32_succ ?_
    have := List.mem_range.mp hi
    omega
  have hCasc : (C.map Prod.fst).Pairwise (· < ·) := by
    rw [hnum, List.pairwise_map]
    exact List.pairwise_lt_range.imp fun h => by omega
  have hfst : L.map Prod.fst = C.map Prod.fst :=
    List.Perm.eq_of_pairwise (fun a b _ _ hab hba => absurd hab (lt_asymm hba)) hasc hCasc hperm
  have hlen : L.length = C.length := by simpa using congrArg List.length hfst
  have hinj := List.inj_on_of_nodup_map (hCasc.imp fun h => ne_of_lt h)
  refine List.ext_getElem hlen fun i h₁ h₂ => hinj (hmem _ (List.getElem_mem h₁)) (List.getElem_mem h₂) ?_
  have := congrArg (·[i]?) hfst
  simpa [h₁, h₂] using this

/-! ## Results in order -/

/-- The parts that are completed, and the first error. -/
theorem collectParts_eq (rs : List (S3Result CompletedPart)) :
    S3Client.collectParts rs = (Results.values rs, Results.firstError rs) := by
  induction rs with
  | nil => rfl
  | cons r rs ih =>
    unfold S3Client.collectParts
    cases r with
    | error e =>
      dsimp only
      rw [ih]
      rfl
    | ok p =>
      dsimp only
      rw [ih]
      rfl

theorem insertionSort_range {n : ℕ} {js : List ℕ} (h : js.Perm (List.range n)) :
    js.insertionSort (fun a b => a ≤ b) = List.range n := by
  refine List.Perm.eq_of_pairwise (fun a b _ _ => le_antisymm) ?_ ?_
    ((List.perm_insertionSort _ _).trans h)
  · exact List.pairwise_insertionSort _ _
  · exact List.pairwise_lt_range.imp le_of_lt

/-- Members numbered with the numbers below `n` in some order are sorted into order. -/
theorem sorted_range {β : Type} {n : ℕ} {l : List (ℕ × β)} (h : (l.map Prod.fst).Perm (List.range n)) :
    (l.insertionSort fun a b => a.1 ≤ b.1).map Prod.fst = List.range n := by
  rw [List.map_insertionSort (r := fun a b : ℕ × β => a.1 ≤ b.1) (s := fun a b : ℕ => a ≤ b) Prod.fst l
    fun a _ b _ => Iff.rfl]
  exact insertionSort_range h

theorem sortParts_range {n : ℕ} {js : List ℕ} (h : js.Perm (List.range n)) (g : ℕ → CompletedPart)
    (hg : ∀ i, i < n → (g i).partNumber = i + 1) :
    S3Client.sortParts (js.map g) = (List.range n).map g := by
  unfold S3Client.sortParts
  rw [← List.map_insertionSort (r := fun a b : ℕ => a ≤ b)
    (s := fun a b : CompletedPart => a.partNumber ≤ b.partNumber) g js ?_, insertionSort_range h]
  intro a ha b hb
  rw [hg a (List.mem_range.mp (h.mem_iff.mp ha)), hg b (List.mem_range.mp (h.mem_iff.mp hb))]
  omega

/-! ## The number of parts -/

theorem divCeil_le_iff {size total n : ℕ} (hs : 0 < size) : divCeil total size ≤ n ↔ total ≤ n * size := by
  constructor
  · intro h
    exact (le_divCeil_mul hs).trans (Nat.mul_le_mul_right size h)
  · intro h
    by_contra hlt
    exact absurd (lt_of_lt_divCeil hs (not_le.mp hlt)) (not_lt.mpr h)

/-- A client with the default chunk size. -/
def smallClient : S3Client Unit := ⟨smallConfig, small_validated, (), some⟩

/-- One byte more than a chunk of the default size. -/
def largeBody : Body :=
  ⟨List.replicate chunkDefault.toNat 1 ++ [2], by
    rw [List.length_append, List.length_replicate]
    decide⟩

theorem largeBody_length : largeBody.data.length = chunkDefault.toNat + 1 := by
  show (List.replicate _ _ ++ _).length = _
  rw [List.length_append, List.length_replicate, List.length_singleton]

theorem large_path : smallClient.config.multipartThreshold.toNat < largeBody.data.length := by
  rw [largeBody_length]
  decide

/-- One byte more than the service accepts in chunks of the default size. -/
def hugeBody : Body :=
  ⟨List.replicate (maxParts * chunkDefault.toNat + 1) 0, by rw [List.length_replicate]; decide⟩

theorem hugeBody_length : hugeBody.data.length = maxParts * chunkDefault.toNat + 1 := List.length_replicate

end S3o
