import S3o.Pieces

/-!
# The arithmetic of the pieces

`multipart_put` and `range_get` cut a length at the multiples of the chunk size, each with its own loop
and the one on `usize`, the other on `u64`. Here the loops compute on machine integers, in a build with or
without overflow checks. The chunk size has no upper bound, so a sum of the loops stays within the word
only because the start of a chunk is below the length.

* `Tiles`: intervals that cut a length into pieces of one size and a rest;
* `chunkBounds`, `rangeBounds`: the loops;
* **`bounds_exact`**: neither overflows, and both compute the same tiling;
* `chunks_machine`, `ranges_machine`: they are the loops of the client.
-/

namespace S3o

/-! ## Tilings -/

/-- **The intervals cut `total` into pieces of `size` and a rest**, from left to right. An interval is its
start and its end, which is not in it. -/
structure Tiles (size total : ℕ) (bs : List (ℕ × ℕ)) : Prop where
  start : ∃ b, bs.head? = some (0, b)
  stop : ∃ a, bs.getLast? = some (a, total)
  nonempty : ∀ b ∈ bs, b.1 < b.2
  inside : ∀ b ∈ bs, b.2 ≤ total
  contiguous : bs.IsChain fun a b => a.2 = b.1
  disjoint : bs.Pairwise fun a b => a.2 ≤ b.1
  full : ∀ b ∈ bs.dropLast, b.2 = b.1 + size

/-- Piece `i` of `total`. -/
def piece (size total i : ℕ) : ℕ × ℕ := (i * size, min ((i + 1) * size) total)

section

variable {size total i : ℕ}

/-- A piece that is not the last is full. -/
theorem piece_snd (hs : 0 < size) (hi : i + 1 < divCeil total size) :
    (piece size total i).2 = (i + 1) * size :=
  Nat.min_eq_left (lt_of_lt_divCeil hs hi).le

/-- **The pieces of a length tile it.** -/
theorem tiles_pieces (hs : 0 < size) (ht : 0 < total) :
    Tiles size total ((List.range (divCeil total size)).map (piece size total)) := by
  obtain ⟨k, hk⟩ : ∃ k, divCeil total size = k + 1 := by
    refine Nat.exists_eq_succ_of_ne_zero fun h0 => ?_
    have hle : total ≤ divCeil total size * size := le_divCeil_mul hs
    rw [h0, Nat.zero_mul] at hle
    omega
  have hlt : ∀ i, i < k + 1 → i * size < total := fun i hi => lt_of_lt_divCeil hs (hk ▸ hi)
  have hend : total ≤ (k + 1) * size := hk ▸ le_divCeil_mul hs
  have hsucc : ∀ i, (i + 1) * size = i * size + size := fun i => Nat.succ_mul i size
  have hmem : ∀ {P : ℕ × ℕ → Prop} {n : ℕ}, (∀ i, i < n → P (piece size total i)) →
      ∀ b ∈ (List.range n).map (piece size total), P b := by
    intro P n h b hb
    obtain ⟨i, hi, rfl⟩ := List.mem_map.mp hb
    exact h i (List.mem_range.mp hi)
  rw [hk]
  constructor
  · rw [List.range_succ_eq_map]
    exact ⟨_, by rw [List.map_cons, List.head?_cons, piece, Nat.zero_mul]⟩
  · refine ⟨k * size, ?_⟩
    rw [List.range_succ, List.map_append, List.map_singleton, List.getLast?_concat, piece,
      Nat.min_eq_right hend]
  · refine hmem fun i hi => ?_
    have := hlt i hi
    have := hsucc i
    unfold piece
    dsimp only
    omega
  · exact hmem fun i _ => Nat.min_le_right _ _
  · rw [List.isChain_iff_getElem]
    intro i hi
    rw [List.length_map, List.length_range] at hi
    rw [List.getElem_map, List.getElem_map, List.getElem_range, List.getElem_range]
    exact piece_snd hs (hk ▸ hi)
  · rw [List.pairwise_map]
    refine List.pairwise_lt_range.imp fun {i j} hij => ?_
    exact (Nat.min_le_left _ _).trans (Nat.mul_le_mul_right size hij)
  · rw [List.range_succ, List.map_append, List.map_singleton, List.dropLast_concat]
    refine hmem fun i hi => ?_
    rw [piece_snd hs (by omega)]
    exact hsucc i

end

/-! ## The loops -/

/-- `a * b` on `usize`. -/
def mulUsize (checks : Bool) (a b : UInt64) : Checked UInt64 :=
  if checks ∧ 2 ^ 64 ≤ a.toNat * b.toNat then Checked.panic else pure (a * b)

/-- `div_ceil`. -/
def divCeilUsize (checks : Bool) (a b : UInt64) : Checked UInt64 :=
  if b = 0 then Checked.panic
  else if 0 < a % b then addUsize checks (a / b) 1
  else pure (a / b)

/-- `saturating_sub`. -/
def saturatingSub (a b : UInt64) : UInt64 := if b ≤ a then a - b else 0

/-- `chunks` of `multipart_put`: the part number and the bounds of each slice. -/
def chunkBounds (checks : Bool) (total cs : UInt64) : Checked (List (ℤ × UInt64 × UInt64)) := do
  let nparts ← divCeilUsize checks total cs
  (List.range nparts.toNat).mapM fun i => do
    let start ← mulUsize checks (.ofNat i) cs
    let pn ← addUsize checks (.ofNat i) 1
    let stop ← addUsize checks start cs
    return (asI32 pn.toNat, start, min stop total)

/-- `ranges` of `range_get`: the bounds and the index of each range. -/
def rangeBounds (checks : Bool) (total rs : UInt64) : Checked (List (UInt64 × UInt64 × ℕ)) := do
  let nparts ← divCeilUsize checks total rs
  (List.range nparts.toNat).mapM fun i => do
    let start ← mulUsize checks (.ofNat i) rs
    let stop ← addUsize checks start rs
    return (start, min stop total, i)

/-- The `Range` header from `start` to `stop`. -/
def rangeHeaderOf (start stop : UInt64) : ByteRange := ⟨start.toNat, (saturatingSub stop 1).toNat⟩

/-! ## What the operations compute -/

section

variable (checks : Bool) {a b : UInt64}

theorem addUsize_exact (h : a.toNat + b.toNat < 2 ^ 64) :
    addUsize checks a b = pure (a + b) ∧ (a + b).toNat = a.toNat + b.toNat := by
  constructor
  · unfold addUsize
    rw [if_neg fun hc => absurd hc.2 (not_le.mpr h)]
  · rw [UInt64.toNat_add, Nat.mod_eq_of_lt h]

theorem mulUsize_exact (h : a.toNat * b.toNat < 2 ^ 64) :
    mulUsize checks a b = pure (a * b) ∧ (a * b).toNat = a.toNat * b.toNat := by
  constructor
  · unfold mulUsize
    rw [if_neg fun hc => absurd hc.2 (not_le.mpr h)]
  · rw [UInt64.toNat_mul, Nat.mod_eq_of_lt h]

/-- The increment of `div_ceil` never overflows. -/
theorem divCeilUsize_exact (hb : 1 < b.toNat) :
    ∃ n, divCeilUsize checks a b = pure n ∧ n.toNat = divCeil a.toNat b.toNat := by
  have hne : b ≠ 0 := by
    rintro rfl
    exact absurd hb (by decide)
  have hdiv : (a / b).toNat = a.toNat / b.toNat := UInt64.toNat_div a b
  have hmod : 0 < a % b ↔ ¬ a.toNat % b.toNat = 0 := by
    rw [UInt64.lt_iff_toNat_lt, UInt64.toNat_mod]
    exact Nat.pos_iff_ne_zero
  unfold divCeilUsize divCeil
  rw [if_neg hne]
  by_cases h0 : a.toNat % b.toNat = 0
  · rw [if_neg fun h => hmod.mp h h0, if_pos h0]
    exact ⟨_, rfl, hdiv⟩
  · have hlt : (a / b).toNat + (1 : UInt64).toNat < 2 ^ 64 := by
      have hself := Nat.div_lt_self (n := a.toNat) (Nat.pos_of_ne_zero fun h => h0 (by simp [h])) hb
      have := a.toNat_lt
      rw [hdiv, UInt64.toNat_one]
      omega
    obtain ⟨hadd, hval⟩ := addUsize_exact checks hlt
    rw [if_pos (hmod.mpr h0), if_neg h0]
    exact ⟨_, hadd, by rw [hval, hdiv, UInt64.toNat_one]⟩

theorem saturatingSub_exact (h : b.toNat ≤ a.toNat) : (saturatingSub a b).toNat = a.toNat - b.toNat := by
  have hle : b ≤ a := UInt64.le_iff_toNat_le.mpr h
  unfold saturatingSub
  rw [if_pos hle, UInt64.toNat_sub_of_le _ _ hle]

theorem mapM_exact {α β : Type} {f : α → Checked β} {g : α → β} {l : List α}
    (h : ∀ x ∈ l, f x = pure (g x)) : l.mapM f = pure (l.map g) := by
  induction l with
  | nil => rfl
  | cons x l ih =>
    rw [List.mapM_cons, h x List.mem_cons_self, ih fun y hy => h y (List.mem_cons_of_mem _ hy), pure_bind,
      pure_bind]
    rfl

theorem toNat_min (a b : UInt64) : (min a b).toNat = min a.toNat b.toNat := by
  show (if a ≤ b then a else b).toNat = _
  split_ifs with h
  · exact (Nat.min_eq_left (UInt64.le_iff_toNat_le.mp h)).symm
  · exact (Nat.min_eq_right (not_le.mp fun hle => h (UInt64.le_iff_toNat_le.mpr hle)).le).symm

end

/-! ## What the loops compute -/

/-- Piece `i`, on machine integers. -/
def pieceUsize (total cs : UInt64) (i : ℕ) : UInt64 × UInt64 :=
  (.ofNat i * cs, min (.ofNat i * cs + cs) total)

section

variable {total cs : UInt64} (checks : Bool) {i : ℕ}

/-- **One turn of the loops.** No operation overflows. -/
theorem turn_exact (hcs : 1 < cs.toNat) (ht : total.toNat ≤ isizeMax)
    (hi : i < divCeil total.toNat cs.toNat) :
    mulUsize checks (.ofNat i) cs = pure (pieceUsize total cs i).1 ∧
      (addUsize checks (.ofNat i) 1 = pure (.ofNat i + 1) ∧ (UInt64.ofNat i + 1).toNat = i + 1) ∧
      addUsize checks (pieceUsize total cs i).1 cs = pure (.ofNat i * cs + cs) ∧
      ((pieceUsize total cs i).1.toNat, (pieceUsize total cs i).2.toNat) =
        piece cs.toNat total.toNat i := by
  have hsum := stop_lt (Nat.zero_lt_of_lt hcs) cs.toNat_lt ht hi
  have hself : i ≤ i * cs.toNat := Nat.le_mul_of_pos_right i (Nat.zero_lt_of_lt hcs)
  have hofNat : (UInt64.ofNat i).toNat = i := UInt64.toNat_ofNat_of_lt' (by show i < 2 ^ 64; omega)
  have hmul := mulUsize_exact checks (a := .ofNat i) (b := cs) (by rw [hofNat]; omega)
  rw [hofNat] at hmul
  have hone := addUsize_exact checks (a := .ofNat i) (b := 1)
    (by rw [hofNat, UInt64.toNat_one]; omega)
  rw [hofNat, UInt64.toNat_one] at hone
  have hstop := addUsize_exact checks (a := .ofNat i * cs) (b := cs) (by rw [hmul.2]; exact hsum)
  refine ⟨hmul.1, hone, hstop.1, ?_⟩
  unfold pieceUsize piece
  rw [toNat_min, hstop.2, hmul.2, Nat.succ_mul]

/-- **`chunks` of `multipart_put`.** -/
theorem chunkBounds_exact (hcs : 1 < cs.toNat) (ht : total.toNat ≤ isizeMax) :
    chunkBounds checks total cs = pure ((List.range (divCeil total.toNat cs.toNat)).map fun i =>
      (asI32 (i + 1), pieceUsize total cs i)) := by
  obtain ⟨n, hn, hval⟩ := divCeilUsize_exact checks (a := total) hcs
  unfold chunkBounds
  rw [hn, pure_bind, hval]
  refine mapM_exact fun i hi => ?_
  obtain ⟨hstart, ⟨hpn, hnum⟩, hstop, -⟩ := turn_exact checks hcs ht (List.mem_range.mp hi)
  rw [hstart, pure_bind, hpn, pure_bind, hstop, pure_bind, hnum]
  rfl

/-- **`ranges` of `range_get`.** -/
theorem rangeBounds_exact (hcs : 1 < cs.toNat) (ht : total.toNat ≤ isizeMax) :
    rangeBounds checks total cs = pure ((List.range (divCeil total.toNat cs.toNat)).map fun i =>
      ((pieceUsize total cs i).1, (pieceUsize total cs i).2, i)) := by
  obtain ⟨n, hn, hval⟩ := divCeilUsize_exact checks (a := total) hcs
  unfold rangeBounds
  rw [hn, pure_bind, hval]
  refine mapM_exact fun i hi => ?_
  obtain ⟨hstart, -, hstop, -⟩ := turn_exact checks hcs ht (List.mem_range.mp hi)
  rw [hstart, pure_bind, hstop, pure_bind]
  rfl

theorem minChunk_lt (h : minChunk ≤ cs) : 1 < cs.toNat :=
  (by decide : 1 < minChunk.toNat).trans_le (UInt64.le_iff_toNat_le.mp h)

theorem pieces_toNat (hcs : 1 < cs.toNat) (ht : total.toNat ≤ isizeMax) :
    ((List.range (divCeil total.toNat cs.toNat)).map (pieceUsize total cs)).map
        (fun b => (b.1.toNat, b.2.toNat)) =
      (List.range (divCeil total.toNat cs.toNat)).map (piece cs.toNat total.toNat) := by
  rw [List.map_map]
  exact List.map_congr_left fun i hi =>
    (turn_exact true hcs ht (List.mem_range.mp hi)).2.2.2

theorem mapIdx_range {α β : Type} (f : ℕ → α) (g : ℕ → α → β) (n : ℕ) :
    ((List.range n).map f).mapIdx g = (List.range n).map fun i => g i (f i) := by
  refine List.ext_getElem (by simp) fun i h₁ h₂ => ?_
  simp

/-! ## The result -/

/-- **The arithmetic of the pieces is exact.** For every length of a `Bytes` value and every chunk size
that `validate` accepts, in a build with or without overflow checks: the loops of `multipart_put` and
`range_get` do not overflow, they compute the same intervals, these tile the length, and each `Range`
header is within it. -/
theorem bounds_exact (total cs : UInt64) (checks : Bool) (h₁ : 1 ≤ total.toNat)
    (ht : total.toNat ≤ isizeMax) (hcs : minChunk ≤ cs) :
    ∃ bs : List (UInt64 × UInt64),
      (chunkBounds checks total cs).run = some (.ok (bs.mapIdx fun i b => (asI32 (i + 1), b))) ∧
      (rangeBounds checks total cs).run = some (.ok (bs.mapIdx fun i b => (b.1, b.2, i))) ∧
      Tiles cs.toNat total.toNat (bs.map fun b => (b.1.toNat, b.2.toNat)) ∧
      (∀ i, i < bs.length → i * cs.toNat + cs.toNat < 2 ^ 64) ∧
      ∀ b ∈ bs, (rangeHeaderOf b.1 b.2).first = b.1.toNat ∧
        (rangeHeaderOf b.1 b.2).last + 1 = b.2.toNat ∧
        (rangeHeaderOf b.1 b.2).first ≤ (rangeHeaderOf b.1 b.2).last ∧
        (rangeHeaderOf b.1 b.2).last < total.toNat := by
  have hcs := minChunk_lt hcs
  have htiles := tiles_pieces (Nat.zero_lt_of_lt hcs) h₁
  rw [← pieces_toNat hcs ht] at htiles
  refine ⟨(List.range (divCeil total.toNat cs.toNat)).map (pieceUsize total cs), ?_, ?_, htiles, ?_, ?_⟩
  · rw [chunkBounds_exact checks hcs ht, mapIdx_range]
    rfl
  · rw [rangeBounds_exact checks hcs ht, mapIdx_range]
    rfl
  · intro i hi
    rw [List.length_map, List.length_range] at hi
    exact stop_lt (Nat.zero_lt_of_lt hcs) cs.toNat_lt ht hi
  · intro b hb
    have hmem := List.mem_map_of_mem (f := fun b : UInt64 × UInt64 => (b.1.toNat, b.2.toNat)) hb
    have hlt : b.1.toNat < b.2.toNat := htiles.nonempty _ hmem
    have hle : b.2.toNat ≤ total.toNat := htiles.inside _ hmem
    have hlast : (rangeHeaderOf b.1 b.2).last = b.2.toNat - 1 :=
      saturatingSub_exact (by rw [UInt64.toNat_one]; omega)
    rw [hlast]
    refine ⟨rfl, ?_, ?_, ?_⟩
    · omega
    · show b.1.toNat ≤ _
      omega
    · omega

/-- Twelve MiB in chunks of five: three pieces, the last of them short. -/
theorem bounds_exact_short :
    (chunkBounds true 12582912 5242880).run =
      some (.ok [(1, 0, 5242880), (2, 5242880, 10485760), (3, 10485760, 12582912)]) ∧
    Tiles 5242880 12582912 [(0, 5242880), (5242880, 10485760), (10485760, 12582912)] := by
  obtain ⟨bs, hchunks, -, htiles, -⟩ := bounds_exact 12582912 5242880 true (by decide) (by decide) (by decide)
  have hrun : (chunkBounds true 12582912 5242880).run =
      some (.ok [(1, 0, 5242880), (2, 5242880, 10485760), (3, 10485760, 12582912)]) := by decide +kernel
  have heq := congrArg (List.map Prod.snd) (Except.ok.inj (Option.some.inj (hchunks.symm.trans hrun)))
  have hsnd : (bs.mapIdx fun i b => (asI32 (i + 1), b)).map Prod.snd = bs :=
    List.ext_getElem (by simp) fun i _ _ => by simp
  rw [hsnd.symm.trans heq] at htiles
  exact ⟨hrun, htiles⟩

end

/-! ## The loops of the client -/

section

variable {κ : Type} (self : S3Client κ) (checks : Bool)

theorem interval_piece {size total i : ℕ} (hs : 0 < size) (hsize : size < 2 ^ 64)
    (ht : total ≤ isizeMax) (hi : i < divCeil total size) : interval size total i = piece size total i := by
  obtain ⟨hint, hlt⟩ := interval_eq hs hsize ht hi
  rw [hint, Nat.min_eq_left hlt.le]
  rfl

/-- **The chunks of an upload** are cut at the bounds that its loop computes. -/
theorem chunks_machine (body : Body) : ∃ cks : List (ℤ × UInt64 × UInt64),
    (chunkBounds checks (.ofNat body.data.length) self.config.chunkSize).run = some (.ok cks) ∧
    self.chunks body.data = cks.map fun c => (c.1, slice body.data (c.2.1.toNat, c.2.2.toNat)) := by
  have hlen : (UInt64.ofNat body.data.length).toNat = body.data.length :=
    UInt64.toNat_ofNat_of_lt' (body.len_le.trans_lt (by decide))
  have hcs : 1 < self.config.chunkSize.toNat := lt_of_lt_of_le (by decide) self.valid.chunk
  generalize UInt64.ofNat body.data.length = n at hlen
  have ht : n.toNat ≤ isizeMax := hlen.trans_le body.len_le
  refine ⟨_, congrArg ExceptT.run (chunkBounds_exact checks hcs ht), ?_⟩
  unfold S3Client.chunks
  rw [List.map_map, ← hlen]
  refine List.map_congr_left fun i hi => ?_
  have hi := List.mem_range.mp hi
  rw [interval_piece (chunkSize_pos self) self.config.chunkSize.toNat_lt ht hi,
    ← (turn_exact checks hcs ht hi).2.2.2]
  simp only [Function.comp_apply]

/-- **The ranges of a download** are the ones that its loop computes. -/
theorem ranges_machine {total : UInt64} (ht : total.toNat ≤ isizeMax) :
    ∃ rs : List (UInt64 × UInt64 × ℕ),
      (rangeBounds checks total self.config.chunkSize).run = some (.ok rs) ∧
      (List.range (divCeil total.toNat self.config.chunkSize.toNat)).map
          (fun i => (i, interval self.config.chunkSize.toNat total.toNat i)) =
        rs.map fun r => (r.2.2, r.1.toNat, r.2.1.toNat) := by
  have hcs : 1 < self.config.chunkSize.toNat := lt_of_lt_of_le (by decide) self.valid.chunk
  refine ⟨_, congrArg ExceptT.run (rangeBounds_exact checks hcs ht), ?_⟩
  rw [List.map_map]
  refine List.map_congr_left fun i hi => ?_
  have hi := List.mem_range.mp hi
  rw [interval_piece (chunkSize_pos self) self.config.chunkSize.toNat_lt ht hi,
    ← (turn_exact checks hcs ht hi).2.2.2]
  rfl

end

end S3o
