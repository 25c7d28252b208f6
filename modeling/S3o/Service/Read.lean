import S3o.Service.Write

/-!
# What is read

Nothing ties the requests of `get_object` to one version of the object. A small object is read by one
GET. A large one is read by GETs of the ranges of the length that the HEAD has reported, and each of
them reads the version that is current when it is served.

* `Moment`, `read_head`, `read_get`: the moments at which the requests of a call were served;
* **`reads_current`**: where the bytes of a result come from, and that they are those of the object when
  nothing writes it in the meantime;
* **`read_truncated`**: a result that was never the content of the object.
-/

namespace S3o

open Async Lts

variable {κ ι : Type} [DecidableEq κ] [DecidableEq ι] {S : Setup κ ι} {w w₀ : World κ ι}
  {l : List (World.Label κ ι × World κ ι)} {objects : String × String → Option Bytes}

/-- A moment of the run at which call `i` runs and the object has the content `d`. -/
def Moment (w₀ : World κ ι) (l : List (World.Label κ ι × World κ ι)) (i : ι) (bucket key : String)
    (d : Bytes) : Prop :=
  ∃ m, Visits w₀ l m ∧ (m.sys.procs i).active = true ∧ m.store.objects (bucket, key) = some d

/-! ## The moments of a call -/

section

variable {i : ι} {bucket key : String}

theorem served_read {n : ℕ} {r : Request} {o : r.Output} (h : Served w₀ l i n r o)
    (ht : r.target = none) : ∃ (m : World κ ι) (σ σ' : Store) (c : Choice), Visits w₀ l m ∧
      (m.sys.procs i).active = true ∧ σ.objects = m.store.objects ∧ σ.serve c r = some (o, σ') := by
  obtain ⟨l₁, m, m', c, -, hv, -, hs, -, hact⟩ := h
  exact ⟨m', m.store, _, c, hv, hact, ((Store.serve_step hs).objects_eq ht).symm, hs⟩

/-- **A HEAD** reports the length of what the object was. -/
theorem read_head (hr : Run World.Step (S.world objects) l w) {n : ℕ} {out : HeadObjectOutput}
    (h : replied n (.headObject bucket key) (.ok out) ∈ (w.sys.procs i).trace) :
    ∃ d, Moment (S.world objects) l i bucket key d ∧ d.length ≤ isizeMax ∧
      out.contentLength = some (d.length : ℤ) := by
  obtain ⟨-, hserved⟩ := (recorded_run hr).known i n _ _ h
  obtain ⟨m, σ, σ', c, hv, hact, hobj, hs⟩ := served_read hserved rfl
  obtain ⟨d, hd, hlen, hout⟩ := serve_head hs
  exact ⟨d, ⟨m, hv, hact, hobj ▸ hd⟩, hlen, hout⟩

theorem read_get (hr : Run World.Step (S.world objects) l w) {range : Option ByteRange} {x : Bytes}
    (h : Got (w.sys.procs i).past bucket key range x) :
    ∃ d, Moment (S.world objects) l i bucket key d ∧ x = partOf d range := by
  obtain ⟨n, n', out, hrep, hcol⟩ := h
  obtain ⟨-, hserved⟩ := (recorded_run hr).known i n _ _ hrep
  obtain ⟨m, σ, σ', c, hv, hact, hobj, hs⟩ := served_read hserved rfl
  obtain ⟨d, hd, hbody⟩ := serve_get hs
  refine ⟨d, ⟨m, hv, hact, hobj ▸ hd⟩, ?_⟩
  rw [(recorded_run hr).whole i n' _ _ hcol, hbody]

end

/-! ## The ranges of a download -/

theorem asU64_length {n : ℕ} (h : n ≤ isizeMax) : asU64 n = n := by
  have hmax : isizeMax = 2 ^ 63 - 1 := rfl
  unfold asU64
  omega

theorem clamp_rangeOf {size total j : ℕ} (hs : 0 < size) (hsize : size < 2 ^ 64) (ht : total ≤ isizeMax)
    (hj : j < divCeil total size) (d : Bytes) :
    clamp d (rangeOf size total j) = window d (j * size) (min ((j + 1) * size) total) := by
  obtain ⟨heq, hlt⟩ := interval_eq hs hsize ht hj
  have hsucc : (j + 1) * size = j * size + size := Nat.succ_mul j size
  have hlast : min ((j + 1) * size) total - 1 + 1 = min ((j + 1) * size) total := by omega
  unfold clamp rangeOf
  rw [heq]
  dsimp only
  rw [hlast, Nat.min_eq_left hlt.le]

def assembled (size total : ℕ) (v : ℕ → Bytes) : Bytes :=
  ((List.range (divCeil total size)).map fun j =>
    window (v j) (j * size) (min ((j + 1) * size) total)).flatten

theorem pieces_map {n : ℕ} {ps : List (ℕ × Bytes)} (hps : ps.map Prod.fst = List.range n)
    {P : Bytes → Prop} {f : ℕ → Bytes → Bytes} (h : ∀ x ∈ ps, ∃ d, P d ∧ x.2 = f x.1 d) :
    ∃ v : ℕ → Bytes, (∀ j < n, P (v j)) ∧ ps.map Prod.snd = (List.range n).map fun j => f j (v j) := by
  choose! v hP hf using h
  have hlen : ps.length = n := by simpa using congrArg List.length hps
  have hfst : ∀ j (hj : j < ps.length), ps[j].1 = j := by
    intro j hj
    have := congrArg (·[j]?) hps
    simpa [hj, hlen ▸ hj] using this
  refine ⟨fun j => if hj : j < ps.length then v ps[j] else [], fun j hj => ?_, ?_⟩
  · have hj' : j < ps.length := hlen.symm ▸ hj
    dsimp only
    rw [dif_pos hj']
    exact hP _ (List.getElem_mem hj')
  · refine List.ext_getElem (by simp [hlen]) fun j h₁ h₂ => ?_
    have hj : j < ps.length := by simpa using h₁
    have := hf _ (List.getElem_mem hj)
    rw [hfst j hj] at this
    simp [hj, this]

theorem ranges_assembled {size total : ℕ} (hs : 0 < size) (hsize : size < 2 ^ 64)
    (ht : total ≤ isizeMax) {ps : List (ℕ × Bytes)}
    (hps : ps.map Prod.fst = List.range (divCeil total size)) {P : Bytes → Prop}
    (h : ∀ x ∈ ps, ∃ d, P d ∧ x.2 = clamp d (rangeOf size total x.1)) :
    ∃ v : ℕ → Bytes, (∀ j < divCeil total size, P (v j)) ∧
      (ps.map Prod.snd).flatten = assembled size total v := by
  obtain ⟨v, hv, hmap⟩ := pieces_map (f := fun j d => clamp d (rangeOf size total j)) hps h
  refine ⟨v, hv, ?_⟩
  rw [hmap]
  unfold assembled
  exact congrArg List.flatten (List.map_congr_left fun j hj =>
    clamp_rangeOf hs hsize ht (List.mem_range.mp hj) _)

theorem assembled_self {size : ℕ} (hs : 0 < size) (hsize : size < 2 ^ 64) {d : Bytes}
    (hd : d.length ≤ isizeMax) {v : ℕ → Bytes} (hv : ∀ j < divCeil d.length size, v j = d) :
    assembled size d.length v = d := by
  have hpiece : ∀ j ∈ List.range (divCeil d.length size),
      window (v j) (j * size) (min ((j + 1) * size) d.length) = slice d (interval size d.length j) := by
    intro j hj
    obtain ⟨heq, hlt⟩ := interval_eq hs hsize hd (List.mem_range.mp hj)
    rw [heq, hv j (List.mem_range.mp hj), Nat.min_eq_left hlt.le]
    rfl
  unfold assembled
  rw [List.map_congr_left hpiece]
  exact slices_flatten hs hsize d hd

/-! ## Results -/

/-- **The bytes of a result**: an object at one moment, or pieces of it at several, of the length that it
had at another. -/
def ReadFrom (S : Setup κ ι) (w₀ : World κ ι) (l : List (World.Label κ ι × World κ ι)) (i : ι)
    (key : String) (d : Bytes) : Prop :=
  Moment w₀ l i (S.client i).config.bucket key d ∨
    ∃ d₀ v, Moment w₀ l i (S.client i).config.bucket key d₀ ∧ d₀.length ≤ isizeMax ∧
      (S.client i).config.multipartThreshold.toNat < d₀.length ∧
      (∀ j < divCeil d₀.length (S.client i).config.chunkSize.toNat,
        Moment w₀ l i (S.client i).config.bucket key (v j)) ∧
      d = assembled (S.client i).config.chunkSize.toNat d₀.length v

theorem Fetched.readFrom (hr : Run World.Step (S.world objects) l w) {i : ι} {key : String} {d : Bytes}
    (h : Fetched (S.client i) key (w.sys.procs i).past d) :
    ReadFrom S (S.world objects) l i key d := by
  rcases h with hgot | ⟨n, out, hrep, hlt, ps, hps, rfl, hall⟩
  · obtain ⟨d', hd', rfl⟩ := read_get hr hgot
    exact Or.inl hd'
  · obtain ⟨d₀, hd₀, hlen, hout⟩ := read_head hr hrep
    rw [hout, Option.getD_some, asU64_length hlen] at hlt hps hall
    obtain ⟨v, hv, heq⟩ := ranges_assembled (chunkSize_pos _) (UInt64.toNat_lt _) hlen hps
      fun x hx => read_get hr (hall x hx)
    exact Or.inr ⟨d₀, v, hd₀, hlen, hlt, hv, heq⟩

/-- **Reads are current.** The bytes of a result are the content of the object at one moment of the call,
or pieces of its contents at several moments. When the object has one content as long as the call runs,
they are this content. -/
theorem reads_current (S : Setup κ ι) (objects : String × String → Option Bytes)
    (hr : Run World.Step (S.world objects) l w) {i : ι} {key : String} (hop : S.op i = .get key)
    {d : Bytes} (hm : (w.sys.procs i).mode = .ended (some (.ok (.data d)))) :
    ReadFrom S (S.world objects) l i key d ∧
    ∀ body, (∀ d', Moment (S.world objects) l i (S.client i).config.bucket key d' → d' = body) →
      d = body := by
  obtain ⟨l', hsys⟩ := World.sys_run hr
  have hres := (honest_run hsys i).tells hm
  rw [hop] at hres
  obtain ⟨d', hd', hfetched⟩ := hres
  cases hd'
  have hread := hfetched.readFrom hr
  refine ⟨hread, fun body hbody => ?_⟩
  rcases hread with hmom | ⟨d₀, v, hd₀, hlen, -, hv, rfl⟩
  · exact hbody d hmom
  · obtain rfl := hbody d₀ hd₀
    exact assembled_self (chunkSize_pos _) (UInt64.toNat_lt _) hlen fun j hj => hbody _ (hv j hj)

def raceSetup : Setup Unit (Fin 2) :=
  smallSetup fun i => if i = 0 then .get "key" else .put "key" ⟨[2, 3], by decide⟩

def oneByte : String × String → Option Bytes := fun _ => some [1]

theorem race_objects {l : List (World.Label Unit (Fin 2) × World Unit (Fin 2))}
    {w : World Unit (Fin 2)} (hr : Run World.Step (raceSetup.world oneByte) l w) :
    w.store.objects ("bucket", "key") = some [1] ∨ w.store.objects ("bucket", "key") = some [2, 3] := by
  rcases (intact_run hr).objects "bucket" "key" with h | ⟨i, e, he, -, hwrote⟩
  · exact Or.inl h
  · match i with
    | 0 =>
      rcases hwrote with ⟨hop, -⟩ | ⟨body, hop, -⟩
      · cases hop
      · cases hop
    | 1 =>
      rcases hwrote with ⟨hop, -⟩ | ⟨body, hop, h⟩
      · cases hop
      · cases hop
        exact Or.inr h

/-- The download of an object that nothing writes. -/
theorem reads_current_quiet : ∃ l w, Run World.Step (raceSetup.world oneByte) l w ∧
    ReadFrom raceSetup (raceSetup.world oneByte) l 0 "key" [1] := by
  obtain ⟨l, w, hr, hw⟩ := raceSetup.play oneByte (measureScript 0 ++ rangeScript 0) rfl
  have hrun : (exec (World.cmd fun _ => true) (raceSetup.world oneByte) (measureScript 0 ++ rangeScript 0)).map
      (fun w => (w.sys.procs 0).mode) = some (.ended (some (.ok (.data [1])))) := rfl
  rw [hw] at hrun
  exact ⟨l, w, hr, (reads_current raceSetup oneByte hr rfl (Option.some.inj hrun)).1⟩

/-- **A truncated read.** The upload lands between the HEAD and the GET: the result is the first byte of
the new version, and the object never had this content. -/
theorem read_truncated : ∃ l w, Run World.Step (raceSetup.world oneByte) l w ∧
    (w.sys.procs 0).mode = .ended (some (.ok (.data [2]))) ∧
    ∀ m, Visits (raceSetup.world oneByte) l m → m.store.objects ("bucket", "key") ≠ some [2] := by
  obtain ⟨l, w, hr, hw⟩ := raceSetup.play oneByte
    (measureScript 0 ++ uploadScript 1 "id" ++ rangeScript 0) rfl
  have hrun : (exec (World.cmd fun _ => true) (raceSetup.world oneByte)
      (measureScript 0 ++ uploadScript 1 "id" ++ rangeScript 0)).map
      (fun w => (w.sys.procs 0).mode) = some (.ended (some (.ok (.data [2])))) := rfl
  rw [hw] at hrun
  refine ⟨l, w, hr, Option.some.inj hrun, fun m hv hm => ?_⟩
  obtain ⟨l', hr'⟩ := hr.reach hv
  rcases race_objects hr' with h | h
  · rw [h] at hm
    cases hm
  · rw [h] at hm
    cases hm

end S3o
