import S3o.Service.Read
import S3o.System.Served
import S3o.Wire.Ranges

/-!
# What a download returns

* `Serves`: the replies of a service that holds one object all the time;
* **`range_download`**: a range download returns what a plain one does, or the error of the first range
  that failed;
* `get_transcript`, **`range_lengths`**: a range download returns the bodies of its ranges in order,
  whatever their lengths are;
* **`range_too_long`**: more bytes than the object has.
-/

namespace S3o

open Async Lts

variable {κ ι : Type}

/-! ## One object -/

/-- **The replies among `ms` are those of a service that holds `d` under the key.** Bodies that are read
are read in full. -/
structure Serves (bucket key : String) (d : Bytes) (ms : List Msg) : Prop where
  ranged : ∀ a b out, a ≤ b → b < d.length →
    .reply (.getObject bucket key (some ⟨a, b⟩)) (.ok out) ∈ ms → out.body = window d a (b + 1)
  plain : ∀ out, .reply (.getObject bucket key none) (.ok out) ∈ ms → out.body = d
  whole : ∀ b x, .body b (.ok x) ∈ ms → x = b

def holding (d : Bytes) : ∀ q, (S3 κ).Ans q
  | .http (.getObject _ _ none) => .ok ⟨d⟩
  | .http (.getObject _ _ (some r)) => .ok ⟨window d r.first (r.last + 1)⟩
  | .http _ => .error (.other "no reply")
  | .collect b => .ok b

section

variable {bucket key : String} {d : Bytes} {ms : List Msg}

theorem Serves.cons {m : Msg} (h : Serves bucket key d ms)
    (hranged : ∀ r out, m = .reply (.getObject bucket key (some r)) (.ok out) →
      out.body = window d r.first (r.last + 1))
    (hplain : ∀ out, m = .reply (.getObject bucket key none) (.ok out) → out.body = d)
    (hwhole : ∀ b x, m = .body b (.ok x) → x = b) : Serves bucket key d (m :: ms) where
  ranged a b out hab hb hm := by
    rcases List.mem_cons.mp hm with hm | hm
    · exact hranged ⟨a, b⟩ out hm.symm
    · exact h.ranged a b out hab hb hm
  plain out hm := by
    rcases List.mem_cons.mp hm with hm | hm
    · exact hplain out hm.symm
    · exact h.plain out hm
  whole b x hm := by
    rcases List.mem_cons.mp hm with hm | hm
    · exact hwhole b x hm.symm
    · exact h.whole b x hm

theorem serves_holding {τ : History (S3 κ)} (t : ℕ) {y : Note (S3 κ)} (h : Serves bucket key d (said τ))
    (hy : ∀ e, y = .event e → e.Heeds (holding d)) :
    Serves bucket key d (said ((t, y) :: τ)) := by
  cases y with
  | read => exact h
  | order js => exact h
  | event e =>
    cases e with
    | sent n q => cases q <;> exact h.cons nofun nofun nofun
    | answered n q x =>
      obtain rfl : x = holding d q := hy _ rfl
      cases q with
      | http r =>
        refine h.cons ?_ ?_ nofun
        · rintro r' out heq
          cases heq
          rfl
        · rintro out heq
          cases heq
          rfl
      | collect b =>
        refine h.cons nofun nofun ?_
        rintro b' x heq
        cases heq
        rfl
    | _ => exact h

end

/-! ## The ranges of one object -/

section

variable {self : S3Client κ} {key : String} {d : Bytes} {x : ℕ → Fetch} {ms : List Msg} {j : ℕ}

theorem rangeHeader_eq {total : ℕ} (ht : total ≤ isizeMax) (hj : j < self.rangeCount total) :
    self.rangeHeader total j =
      ⟨j * self.config.chunkSize.toNat, min ((j + 1) * self.config.chunkSize.toNat) total - 1⟩ ∧
    j * self.config.chunkSize.toNat < min ((j + 1) * self.config.chunkSize.toNat) total := by
  have hpos := chunkSize_pos self
  obtain ⟨heq, hlt⟩ := interval_eq hpos self.config.chunkSize.toNat_lt ht hj
  have hsucc : (j + 1) * self.config.chunkSize.toNat = j * self.config.chunkSize.toNat +
      self.config.chunkSize.toNat := Nat.succ_mul _ _
  unfold S3Client.rangeHeader
  rw [heq, Nat.min_eq_left hlt.le]
  exact ⟨rfl, by omega⟩

/-- What a range has read of an object that does not change. -/
theorem Serves.range (h : Serves self.config.bucket key d ms) (hd : d.length ≤ isizeMax)
    (hms : Shuffle (self.rangeTalk key d.length x) ms) (hj : j < self.rangeCount d.length) {b y : Bytes}
    (hx : x j = .read b y) : y = window d (j * self.config.chunkSize.toNat)
      (min ((j + 1) * self.config.chunkSize.toNat) d.length) := by
  obtain ⟨hhead, hlt⟩ := rangeHeader_eq hd hj
  have htalk : self.rangeTalk key d.length x j = (Fetch.read b y).messages self.config.bucket key
      (some (self.rangeHeader d.length j)) := by
    unfold S3Client.rangeTalk
    rw [if_pos hj, hx]
  have hin : ∀ m ∈ (Fetch.read b y).messages self.config.bucket key (some (self.rangeHeader d.length j)),
      m ∈ ms := fun m hm => hms.mem_iff.mpr ⟨j, htalk ▸ hm⟩
  have hbody := h.whole b y (hin _ (by simp [Fetch.messages]))
  rw [hhead] at hin
  generalize hend : min ((j + 1) * self.config.chunkSize.toNat) d.length = last at hlt hin ⊢
  have hle : last ≤ d.length := hend ▸ Nat.min_le_right _ _
  have hfirst : j * self.config.chunkSize.toNat ≤ last - 1 := by omega
  have hlast : last - 1 < d.length := by omega
  have hrep := h.ranged _ _ ⟨b⟩ hfirst hlast (hin _ (by simp [Fetch.messages]))
  rw [Nat.sub_add_cancel (by omega)] at hrep
  exact hbody.trans hrep

/-- **The ranges of an object that does not change make it up.** -/
theorem Serves.ranges (h : Serves self.config.bucket key d ms) (hd : d.length ≤ isizeMax)
    (hms : Shuffle (self.rangeTalk key d.length x) ms)
    (hx : ∀ j, j < self.rangeCount d.length → ∃ b y, x j = .read b y) :
    ((List.range (self.rangeCount d.length)).map fun j => (x j).bytes).flatten = d := by
  have hbytes : ∀ j ∈ List.range (self.rangeCount d.length), (x j).bytes =
      window d (j * self.config.chunkSize.toNat)
        (min ((j + 1) * self.config.chunkSize.toNat) d.length) := by
    intro j hj
    have hj := List.mem_range.mp hj
    obtain ⟨b, y, hxj⟩ := hx j hj
    rw [hxj]
    exact h.range hd hms hj hxj
  rw [List.map_congr_left hbytes]
  exact assembled_self (chunkSize_pos self) self.config.chunkSize.toNat_lt hd fun _ _ => rfl

end

/-- **A range download equals a plain one.** While the service holds `d` both downloads return. Each that
has lost its acquisition sends nothing and returns this error. Otherwise `range_get` returns `d` if all its
ranges are read, and the error of the first range that failed, in the order in which they have completed,
if not; and `simple_get` returns `d` if its GET is read, and its error if not. -/
theorem range_download (self : S3Client κ) (key : String) (d : Body) :
    let n := self.rangeCount d.data.length
    let bulk := Acquire.bulk self.config.readConcurrency.toNat
    let Held := fun τ : History (S3 κ) => Serves self.config.bucket key d.data (said τ)
    ((self.rangeGet key d.data.length).Returns Held ∧
      ∀ τ r, (self.rangeGet key d.data.length).Runs τ (.ret r) → Held τ →
        (.lost (self.pool, .read) bulk ∈ τ.events ∧ said τ = [] ∧
          r = .error (bulk.timeoutError Half.read.name)) ∨
        ∃ x js, Shuffle (self.rangeTalk key d.data.length x) (said τ) ∧ js.Perm (List.range n) ∧
          js ∈ orders τ ∧
          ((∀ j, j < n → ∃ b y, x j = .read b y) → r = .ok d.data) ∧
          (¬ (∀ j, j < n → ∃ b y, x j = .read b y) →
            ∃ e, Fetch.firstError x js = some e ∧ r = .error e)) ∧
    (self.simpleGet key).Returns Held ∧
    ∀ τ r, (self.simpleGet key).Runs τ (.ret r) → Held τ →
      (.lost (self.pool, .read) .one ∈ τ.events ∧ said τ = [] ∧
        r = .error (Acquire.one.timeoutError Half.read.name)) ∨
      ∃ x : Fetch, said τ = x.messages self.config.bucket key none ∧
        ((∃ b y, x = .read b y) → r = .ok d.data) ∧
        (¬ (∃ b y, x = .read b y) → ∃ e, x.error "body" = some e ∧ r = .error e) := by
  intro n bulk Held
  have hroom : Room self .read (fun _ => True) fun _ w => 0 < w :=
    ⟨trivial, trivial, fun _ _ => Nat.one_pos, self.valid.concurrency.1⟩
  refine ⟨⟨?_, ?_⟩, ?_, ?_⟩
  · refine returns_of_loopFree ?_ (rangeGet_permits hroom key _) (holding d.data) fun τ t y => serves_holding t
    exact structural_loopFree.guarded fun _ => trivial
  · intro τ r hr hheld
    obtain ⟨ms, hms, h⟩ := (rangeGet_spec.run hr).result r rfl
    rw [List.append_nil, said_nil, List.append_nil] at hms
    rw [List.append_nil] at h
    cases h with
    | lost h => exact Or.inl ⟨h, hms, rfl⟩
    | @done x js _ _ hshuffle hjs hmem he hok =>
      rw [← hms] at hshuffle
      have hall : Fetch.firstError x js = none ↔ ∀ j, j < n → ∃ b y, x j = .read b y := by
        rw [Fetch.firstError_eq_none]
        exact forall_congr' fun j => by rw [hjs.mem_iff, List.mem_range]
      refine Or.inr ⟨x, js, hshuffle, hjs, hmem, fun hx => ?_, fun hx => ?_⟩
      · rw [hok (hall.mpr hx), hheld.ranges d.len_le hshuffle hx]
      · cases hfirst : Fetch.firstError x js with
        | none => exact absurd (hall.mp hfirst) hx
        | some e => exact ⟨e, rfl, he e hfirst⟩
  · refine returns_of_loopFree ?_ (simpleGet_permits hroom key) (holding d.data) fun τ t y => serves_holding t
    exact structural_loopFree.guarded fun _ => trivial
  · intro τ r hr hheld
    rcases (simpleGet_spec.run hr).result _ rfl with ⟨hlost, hms, rfl⟩ | ⟨x, hms, rfl⟩
    · rw [List.append_nil] at hlost hms
      exact Or.inl ⟨hlost, hms, rfl⟩
    · rw [List.append_nil, said_nil, List.append_nil] at hms
      refine Or.inr ⟨x, hms, ?_, fun hx => ?_⟩
      · rintro ⟨b, y, rfl⟩
        have hin : ∀ m ∈ (Fetch.read b y).messages self.config.bucket key none, m ∈ said τ :=
          fun m hm => hms ▸ hm
        have hbody := hheld.whole b y (hin _ (by simp [Fetch.messages]))
        have hrep := hheld.plain ⟨b⟩ (hin _ (by simp [Fetch.messages]))
        exact congrArg Except.ok (hbody.trans hrep)
      · cases he : x.error "body" with
        | none => exact absurd (Fetch.error_eq_none.mp he) hx
        | some e =>
          refine ⟨e, rfl, ?_⟩
          rw [Fetch.result_eq, he]

theorem serves_of_heeded {τ : History (S3 κ)} {d : Bytes} (h : Heeded (holding d) τ.events)
    (bucket key : String) : Serves bucket key d (said τ) := by
  rw [← messages_events]
  refine ⟨fun a b out _ _ hm => ?_, fun out hm => ?_, fun b x hm => ?_⟩
  · cases heeded_reply h hm
    rfl
  · cases heeded_reply h hm
    rfl
  · cases heeded_body h hm
    rfl

theorem read_of_heeded {τ : History (S3 κ)} {d : Bytes} (h : Heeded (holding d) τ.events) {x : Fetch}
    (bucket key : String) (range : Option ByteRange) (hx : ∀ m ∈ x.messages bucket key range, m ∈ said τ) :
    ∃ b y, x = .read b y := by
  rw [← messages_events] at hx
  cases x with
  | refused e =>
    cases range <;> cases heeded_reply h (hx _ List.mem_cons_self)
  | broken b e => cases heeded_body h (hx _ List.mem_cons_self)
  | read b y => exact ⟨b, y, rfl⟩

/-- Both downloads of an object of two chunks. -/
theorem range_download_large : ∃ τ τ' : History (S3 Unit),
    smallClient.rangeCount largeBody.data.length = 2 ∧
    (smallClient.rangeGet "key" largeBody.data.length).Runs τ (.ret (.ok largeBody.data)) ∧
    (smallClient.simpleGet "key").Runs τ' (.ret (.ok largeBody.data)) := by
  have hroom : Room smallClient .read (fun _ => True) fun _ w => 0 < w :=
    ⟨trivial, trivial, fun _ _ => Nat.one_pos, smallClient.valid.concurrency.1⟩
  have hranged : (smallClient.rangeGet "key" largeBody.data.length).LoopFree :=
    structural_loopFree.guarded fun _ => trivial
  have hsimple : (smallClient.simpleGet "key").LoopFree := structural_loopFree.guarded fun _ => trivial
  obtain ⟨τ, r, hr, hτ⟩ := run_of_loopFree hranged (rangeGet_permits hroom _ _) (holding largeBody.data)
  obtain ⟨τ', r', hr', hτ'⟩ := run_of_loopFree hsimple (simpleGet_permits hroom _) (holding largeBody.data)
  obtain ⟨⟨-, hrange⟩, -, hplain⟩ := range_download smallClient "key" largeBody
  refine ⟨τ, τ', ?_, ?_, ?_⟩
  · rw [largeBody_length]
    rfl
  · rcases hrange τ r hr (serves_of_heeded hτ _ _) with ⟨hlost, -⟩ | ⟨x, js, hshuffle, -, -, hread, -⟩
    · exact absurd (hτ _ hlost) id
    · rw [hread fun j hj => ?_] at hr
      · exact hr
      · refine read_of_heeded hτ "bucket" "key"
          (some (smallClient.rangeHeader largeBody.data.length j)) fun m hm => ?_
        refine hshuffle.mem_iff.mpr ⟨j, ?_⟩
        unfold S3Client.rangeTalk
        rwa [if_pos hj]
  · rcases hplain τ' r' hr' (serves_of_heeded hτ' _ _) with ⟨hlost, -⟩ | ⟨x, hsaid, hread, -⟩
    · exact absurd (hτ' _ hlost) id
    · rw [hread (read_of_heeded hτ' "bucket" "key" none fun m hm => hsaid ▸ hm)] at hr'
      exact hr'

/-! ## Replies of any length -/

def S3Client.measured (self : S3Client κ) (key : String) (out : HeadObjectOutput) : List Msg :=
  [.reply (.headObject self.config.bucket key) (.ok out), .request (.headObject self.config.bucket key)]

def HeadObjectOutput.total (out : HeadObjectOutput) : ℕ := asU64 (out.contentLength.getD 0)

section

variable {self : S3Client κ} {key : String} {τ : History (S3 κ)}

/-- **`stat`** reports the length that its HEAD has reported. -/
theorem stat_spec : (self.stat key).Spec (talk fun _ => True)
    (fun r τ' => ∀ info, r = .ok info → ∃ out, said τ' = self.measured key out ++ said τ ∧
      info.contentLength = out.total) τ := by
  unfold S3Client.stat
  rw [spec_guarded]
  simp only [true_and]
  refine fun s => ⟨fun t u => ?_, fun t info h => nomatch h⟩
  rw [Prog.bind_eq, Prog.spec_bind]
  refine spec_send ?_
  simp only [Leaf.spec_send, true_and]
  intro s' n t' x
  refine (Prog.spec_ret _).mpr ⟨trivial, ?_⟩
  intro v info h
  cases x with
  | error e => cases h
  | ok out =>
    cases h
    exact ⟨out, rfl, rfl⟩

/-- What `get_object` has said when it has the bytes `d`: a HEAD, and the GETs of the ranges of the length
it has reported, or one GET of the whole object. -/
def Downloaded (self : S3Client κ) (key : String) (τ : History (S3 κ)) (d : Bytes) : Prop :=
  ∃ out ms, said τ = ms ++ self.measured key out ∧
    if self.config.multipartThreshold.toNat < out.total then
      RangeTranscript self key out.total (orders τ)
        (.lost (self.pool, .read) (.bulk self.config.readConcurrency.toNat) ∈ τ.events) ms (.ok d)
    else ∃ b, ms = (Fetch.read b d).messages self.config.bucket key none

theorem Downloaded.mono {d : Bytes} (h : Downloaded self key τ d) {τ' : History (S3 κ)}
    (hsaid : said τ' = said τ) (hτ : τ <:+ τ') : Downloaded self key τ' d := by
  obtain ⟨out, ms, hms, hpath⟩ := h
  refine ⟨out, ms, hsaid.trans hms, ?_⟩
  split_ifs at hpath ⊢
  · exact hpath.mono (orders_mono hτ) (events_mono hτ)
  · exact hpath

/-- **What `get_object` has said when it succeeds.** -/
theorem get_transcript : ((Op.get key).program self).Spec (talk fun _ => True)
    (fun r τ => ∀ v, r = .ok v → ∃ d, v = .data d ∧ Downloaded self key τ d) [] := by
  let B : History (S3 κ) → S3Result Value → Prop := fun τ r =>
    ∀ v, r = .ok v → ∃ d, v = .data d ∧ Downloaded self key τ d
  refine op_of_stages (T := (talk fun _ => True).triples) (A := fun τ => said τ = []) (B := B) (C := B)
    (I := (· = [])) ?_ (fun r τ _ h => ?_) ?_ [] trivial rfl
  · rintro τ - rfl
    simp only [spec_startOp, true_and]
    exact fun t u => rfl
  · refine finish_spec r (fun _ _ => trivial) fun τ' hsaid hτ v hv => ?_
    obtain ⟨d, hd, hget⟩ := h v hv
    exact ⟨d, hd, hget.mono hsaid hτ⟩
  refine ⟨fun τ r => ∀ info, r = .ok info → ∃ out, said τ = self.measured key out ∧
      info.contentLength = out.total, fun τ r => ∀ d, r = .ok d → Downloaded self key τ d, ?_, ?_, ?_, ?_,
    ?_, ?_⟩
  · refine fun τ _ hτ => Prog.Spec.weaken stat_spec fun r τ' _ h info hinfo => ?_
    obtain ⟨out, hsaid, htotal⟩ := h info hinfo
    exact ⟨out, by rw [hsaid, hτ, List.append_nil], htotal⟩
  · rintro e τ - v hv
    cases hv
  · intro info hlt τ _ h
    obtain ⟨out, hsaid, htotal⟩ := h info rfl
    rw [htotal] at hlt ⊢
    refine Prog.Spec.weaken rangeGet_spec ?_
    rintro r τ' - ⟨ms, hms, hr⟩ d rfl
    refine ⟨out, ms, by rw [hms, hsaid], ?_⟩
    rwa [if_pos hlt]
  · intro info hlt τ _ h
    obtain ⟨out, hsaid, htotal⟩ := h info rfl
    rw [htotal] at hlt
    refine Prog.Spec.weaken simpleGet_spec fun r τ' _ hr d hd => ?_
    rcases hr with ⟨-, -, rfl⟩ | ⟨x, hms, rfl⟩
    · cases hd
    · cases x with
      | refused e => cases hd
      | broken b e => cases hd
      | read b d =>
        cases hd
        refine ⟨out, _, by rw [hms, hsaid], ?_⟩
        rw [if_neg hlt]
        exact ⟨b, rfl⟩
  · refine fun d τ _ h => (Prog.spec_log _).mpr ⟨trivial, fun t => ⟨trivial, fun v hv => ?_⟩⟩
    cases hv
    exact ⟨d, rfl, (h d rfl).mono rfl (List.suffix_cons _ τ)⟩
  · rintro e τ - v hv
    cases hv

end

theorem Fetch.head_notMem (x : Fetch) {bucket bucket' key key' : String} {range : Option ByteRange}
    {y : Except SdkError HeadObjectOutput} :
    .reply (.headObject bucket' key') y ∉ x.messages bucket key range := by
  cases x <;> simp [Fetch.messages]

/-- **A range download that has succeeded** has read all its ranges. -/
theorem RangeTranscript.bodies {self : S3Client κ} {key : String} {total : ℕ} {o : Set (List ℕ)}
    {L : Prop} {ms : List Msg} {d : Bytes} (h : RangeTranscript self key total o L ms (.ok d)) :
    ∃ y b : ℕ → Bytes, Shuffle (self.rangeTalk key total fun j => .read (y j) (b j)) ms ∧
      d = ((List.range (self.rangeCount total)).map b).flatten := by
  cases h with
  | @done x js _ _ hms hjs _ he hok =>
    have hfirst : Fetch.firstError x js = none := by
      cases hfirst : Fetch.firstError x js with
      | none => rfl
      | some e => cases he e hfirst
    have hread : ∀ j, ∃ y b, j < self.rangeCount total → x j = .read y b := by
      intro j
      by_cases hj : j < self.rangeCount total
      · obtain ⟨y, b, hx⟩ :=
          Fetch.firstError_eq_none.mp hfirst j (hjs.mem_iff.mpr (List.mem_range.mpr hj))
        exact ⟨y, b, fun _ => hx⟩
      · exact ⟨[], [], fun h => absurd h hj⟩
    choose y b hx using hread
    have htalk : self.rangeTalk key total x = self.rangeTalk key total fun j => .read (y j) (b j) := by
      funext j
      unfold S3Client.rangeTalk
      by_cases hj : j < self.rangeCount total
      · rw [if_pos hj, if_pos hj, hx j hj]
      · rw [if_neg hj, if_neg hj]
    have hbytes : ∀ j ∈ List.range (self.rangeCount total), (x j).bytes = b j := by
      intro j hj
      rw [hx j (List.mem_range.mp hj)]
      rfl
    refine ⟨y, b, htalk ▸ hms, ?_⟩
    rw [Except.ok.inj (hok hfirst), List.map_congr_left hbytes]

/-- **Bodies have the lengths asked for** exactly when they make up `total` bytes, each at its place. -/
theorem lengths_iff {size total : ℕ} (hs : 0 < size) (b : ℕ → Bytes) :
    ((((List.range (divCeil total size)).map b).flatten.length = total ∧ ∀ j, j < divCeil total size →
      window ((List.range (divCeil total size)).map b).flatten (j * size) (min ((j + 1) * size) total) =
        b j) ↔
      ∀ j, j < divCeil total size → (b j).length = min ((j + 1) * size) total - j * size) := by
  have hstart : ∀ j, j < divCeil total size → min (j * size) total = j * size :=
    fun j hj => Nat.min_eq_left (lt_of_lt_divCeil hs hj).le
  have hend : min (divCeil total size * size) total = total := Nat.min_eq_right (le_divCeil_mul hs)
  have hcut : ∀ j, min (j * size) total ≤ min ((j + 1) * size) total := by
    intro j
    have hsucc : (j + 1) * size = j * size + size := Nat.succ_mul j size
    omega
  constructor
  · rintro ⟨hlen, hwin⟩ j hj
    rw [← hwin j hj]
    exact length_window ((Nat.min_le_right _ _).trans hlen.ge)
  · intro hb
    have hzero : min (0 * size) total = 0 := by rw [Nat.zero_mul, Nat.zero_min]
    obtain ⟨hlen, hwin⟩ := windows_flatten (fun j => min (j * size) total) hzero hcut b
      (n := divCeil total size) fun j hj => (hb j hj).trans (by rw [hstart j hj])
    refine ⟨hlen.trans hend, fun j hj => ?_⟩
    have hwin := hwin j hj
    rwa [hstart j hj] at hwin

variable [DecidableEq κ] [DecidableEq ι]

/-- **The bytes of a range download** are the bodies of its ranges, in order. They are as many as the
HEAD has reported, each body at the place of its range, exactly when every body is as long as its
range. -/
theorem range_lengths (S : Setup κ ι) {s : Sys κ ι} {l : List ((ι × Act κ) × Sys κ ι)}
    (hr : Run Sys.Step S.init l s) {i : ι} {key : String} (hop : S.op i = .get key) {d : Bytes}
    (hm : (s.procs i).mode = .ended (some (.ok (.data d)))) {out : HeadObjectOutput}
    (hout : .reply (.headObject (S.client i).config.bucket key) (.ok out) ∈ messages (s.procs i).trace)
    (hpath : (S.client i).config.multipartThreshold.toNat < out.total) :
    let c := S.client i
    let n := c.rangeCount out.total
    let size := c.config.chunkSize.toNat
    ∃ (y b : ℕ → Bytes) (ms : List Msg), messages (s.procs i).trace = ms ++ c.measured key out ∧
      Shuffle (c.rangeTalk key out.total fun j => .read (y j) (b j)) ms ∧
      d = ((List.range n).map b).flatten ∧
      ((d.length = out.total ∧
          ∀ j, j < n → window d (j * size) (min ((j + 1) * size) out.total) = b j) ↔
        ∀ j, j < n → (b j).length = min ((j + 1) * size) out.total - j * size) := by
  intro c n size
  obtain ⟨τ, hτ⟩ := follows_run hr i
  rw [hop] at hτ
  have hms : messages (s.procs i).trace = said τ := by rw [hτ.trace, messages_events]
  obtain ⟨d', hd, out', ms, hsaid, hfetched⟩ := hτ.reached.returned get_transcript hm _ rfl
  cases hd
  rw [hms, hsaid] at hout ⊢
  -- the HEAD that the download has sent is the only one
  have hmeasured : .reply (.headObject c.config.bucket key) (.ok out) ∉ ms →
      out = out' := by
    intro hnot
    rcases List.mem_append.mp hout with h | h
    · exact absurd h hnot
    · rcases List.mem_cons.mp h with h | h
      · cases h
        rfl
      · cases List.mem_singleton.mp h
  by_cases hlt : c.config.multipartThreshold.toNat < out'.total
  · rw [if_pos hlt] at hfetched
    obtain ⟨y, b, hshuffle, hbytes⟩ := hfetched.bodies
    have hnot : .reply (.headObject c.config.bucket key) (.ok out) ∉ ms := by
      intro h
      obtain ⟨j, hj⟩ := hshuffle.mem_iff.mp h
      unfold S3Client.rangeTalk at hj
      split_ifs at hj
      · exact Fetch.head_notMem _ hj
      · cases hj
    obtain rfl := hmeasured hnot
    refine ⟨y, b, ms, rfl, hshuffle, hbytes, ?_⟩
    rw [hbytes]
    exact lengths_iff (chunkSize_pos c) b
  · rw [if_neg hlt] at hfetched
    obtain ⟨b, rfl⟩ := hfetched
    obtain rfl := hmeasured (Fetch.head_notMem _)
    exact absurd hpath hlt

def getSetup : Setup Unit (Fin 1) := smallSetup fun _ => .get "key"

def twoAnswer (c₁ c₂ : Bytes) (n : ℕ) : ∀ q, (S3 κ).Ans q
  | .http (.headObject ..) => .ok ⟨some 8388609, none, none, none⟩
  | .http (.getObject _ _ (some ⟨0, _⟩)) => .ok ⟨c₁⟩
  | q => sampleAnswer c₂ n q

/-- The messages of a range whose body is `c`, newest first. -/
def rangeMsgs (first last : ℕ) (c : Bytes) : List Msg :=
  (Fetch.read c c).messages "bucket" "key" (some ⟨first, last⟩)

theorem mem_rangeMsgs_reply {first last : ℕ} {c : Bytes} {range : Option ByteRange} {out : GetObjectOutput} :
    .reply (.getObject "bucket" "key" range) (.ok out) ∈ rangeMsgs first last c ↔
      range = some ⟨first, last⟩ ∧ out = ⟨c⟩ := by
  simp [rangeMsgs, Fetch.messages]

theorem mem_rangeMsgs_body {first last : ℕ} {c y b : Bytes} :
    .body y (.ok b) ∈ rangeMsgs first last c ↔ y = c ∧ b = c := by
  simp [rangeMsgs, Fetch.messages]

/-- A download in two ranges. -/
theorem getSetup_two (c₁ c₂ : Bytes) : ∃ l s, Run Sys.Step getSetup.init l s ∧
    (s.procs 0).mode = .ended (some (.ok (.data [c₁, c₂].flatten))) ∧
    messages (s.procs 0).trace = (rangeMsgs 8388608 8388608 c₂ ++ rangeMsgs 0 8388607 c₁) ++
      smallClient.measured "key" ⟨some 8388609, none, none, none⟩ := by
  obtain ⟨l, s, hr, hrun⟩ := getSetup.observe (twoAnswer c₁ c₂) (List.replicate 68 (0, .go))
    (fun s => ((s.procs 0).mode, messages (s.procs 0).trace))
    (v := (.ended (some (.ok (.data [c₁, c₂].flatten))),
      (rangeMsgs 8388608 8388608 c₂ ++ rangeMsgs 0 8388607 c₁) ++
        smallClient.measured "key" ⟨some 8388609, none, none, none⟩)) rfl
  obtain ⟨hm, hmsgs⟩ := Prod.mk.inj hrun
  exact ⟨l, s, hr, hm, hmsgs⟩

/-- The download of an object of a chunk and a byte: the second range is that byte. -/
theorem range_lengths_large : ∃ l s, Run Sys.Step getSetup.init l s ∧
    (s.procs 0).mode = .ended (some (.ok (.data largeBody.data))) ∧
    largeBody.data.length = 8388609 ∧ window largeBody.data 8388608 8388609 = [2] := by
  obtain ⟨c₁, c₂, hdata, hc₁, hc₂⟩ : ∃ c₁ c₂ : Bytes, largeBody.data = [c₁, c₂].flatten ∧
      c₁.length = 8388608 ∧ c₂ = [2] :=
    ⟨List.replicate chunkDefault.toNat 1, [2], rfl, List.length_replicate, rfl⟩
  rw [hdata]
  obtain ⟨l, s, hr, hm, hmsgs⟩ := getSetup_two c₁ c₂
  have hout : .reply (.headObject "bucket" "key") (.ok ⟨some 8388609, none, none, none⟩) ∈
      messages (s.procs 0).trace := by
    rw [hmsgs]
    exact List.mem_append_right _ List.mem_cons_self
  obtain ⟨y, b, ms, hsaid, hshuffle, -, hiff⟩ := range_lengths getSetup hr (i := 0) rfl hm hout (by decide)
  have hms : rangeMsgs 8388608 8388608 c₂ ++ rangeMsgs 0 8388607 c₁ = ms :=
    List.append_cancel_right (hmsgs.symm.trans hsaid)
  -- the messages of range `j` are those of one of the two bodies
  have hsent : ∀ j < 2, ∀ m ∈ (Fetch.read (y j) (b j)).messages "bucket" "key"
      (some (smallClient.rangeHeader 8388609 j)),
      m ∈ rangeMsgs 8388608 8388608 c₂ ∨ m ∈ rangeMsgs 0 8388607 c₁ := by
    intro j hj m hm
    rw [← List.mem_append, hms]
    refine hshuffle.mem_iff.mpr ⟨j, ?_⟩
    unfold S3Client.rangeTalk
    rwa [if_pos (by exact hj)]
  have hread : ∀ j < 2, b j = y j := by
    intro j hj
    rcases hsent j hj _ List.mem_cons_self with h | h
    · exact (mem_rangeMsgs_body.mp h).2.trans (mem_rangeMsgs_body.mp h).1.symm
    · exact (mem_rangeMsgs_body.mp h).2.trans (mem_rangeMsgs_body.mp h).1.symm
  have hfirst : b 0 = c₁ := by
    rcases hsent 0 (by decide) _ (.tail _ (.tail _ (.head _))) with h | h
    · exact absurd (mem_rangeMsgs_reply.mp h).1 (by decide)
    · exact (hread 0 (by decide)).trans (GetObjectOutput.mk.inj (mem_rangeMsgs_reply.mp h).2)
  have hsecond : b 1 = c₂ := by
    rcases hsent 1 (by decide) _ (.tail _ (.tail _ (.head _))) with h | h
    · exact (hread 1 (by decide)).trans (GetObjectOutput.mk.inj (mem_rangeMsgs_reply.mp h).2)
    · exact absurd (mem_rangeMsgs_reply.mp h).1 (by decide)
  obtain ⟨hlen, hwin⟩ := hiff.mpr fun j hj => by
    rcases Nat.lt_succ_iff_lt_or_eq.mp (show j < 2 from hj) with h | rfl
    · rw [Nat.lt_one_iff.mp h, hfirst, hc₁]
      rfl
    · rw [hsecond, hc₂]
      rfl
  exact ⟨l, s, hr, hm, hlen, (hwin 1 (by decide)).trans (hsecond.trans hc₂)⟩
def longAnswer (n : ℕ) : ∀ q, (S3 κ).Ans q
  | .http (.headObject ..) => .ok ⟨some 1, none, none, none⟩
  | q => sampleAnswer [1, 2] n q

/-- **More bytes than the object has.** The HEAD reports one byte and the only range brings two: the call
succeeds with both of them. -/
theorem range_too_long : ∃ l s, Run Sys.Step getSetup.init l s ∧
    (s.procs 0).mode = .ended (some (.ok (.data [1, 2]))) ∧
    .reply (.headObject "bucket" "key") (.ok ⟨some 1, none, none, none⟩) ∈
      messages (s.procs 0).trace ∧
    (getSetup.client 0).config.multipartThreshold.toNat < 1 := by
  obtain ⟨l, s, hr, hrun⟩ := getSetup.observe longAnswer (List.replicate 57 (0, .go))
    (fun s => ((s.procs 0).mode, (messages (s.procs 0).trace).drop 4))
    (v := (.ended (some (.ok (.data [1, 2]))),
      (getSetup.client 0).measured "key" ⟨some 1, none, none, none⟩)) rfl
  obtain ⟨hm, hmsgs⟩ := Prod.mk.inj hrun
  refine ⟨l, s, hr, hm, List.mem_of_mem_drop (i := 4) ?_, by decide⟩
  rw [hmsgs]
  exact List.mem_cons_self

end S3o
