import Mathlib.Data.List.Dedup
import S3o.Async.Ends
import S3o.Service.Read
import S3o.System.Permits
import S3o.Wire.Listing

/-!
# Listings of a bucket

* `Bucket`, `cut`: the keys of a bucket, and what a delimiter makes of them;
* `Paging`, `Shows`, `Answered`: `ListObjectsV2`, with the content cut into pages anyhow;
* **`listing_complete`**: `list_objects` asks once for every page, and returns every key once.
-/

namespace S3o

open Async Lts

variable {κ : Type}

/-! ## Keys -/

section

variable {α : Type} [DecidableEq α]

/-- The members of `l` up to the first `c`, which is included. -/
def upTo (c : α) : List α → List α
  | [] => []
  | x :: l => if x = c then [x] else x :: upTo c l

theorem upTo_of_notMem {c : α} {l : List α} (h : c ∉ l) : upTo c l = l := by
  induction l with
  | nil => rfl
  | cons x l ih =>
    rw [List.mem_cons, not_or] at h
    rw [upTo, if_neg (Ne.symm h.1), ih h.2]

theorem upTo_append {c : α} {s : List α} (l : List α) (h : c ∉ s) : upTo c (s ++ c :: l) = s ++ [c] := by
  induction s with
  | nil => rw [List.nil_append, upTo, if_pos rfl, List.nil_append]
  | cons x s ih =>
    rw [List.mem_cons, not_or] at h
    rw [List.cons_append, upTo, if_neg (Ne.symm h.1), ih h.2, List.cons_append]

/-- **A list that has a `c`** is cut after the first. -/
theorem exists_of_mem {c : α} {l : List α} (h : c ∈ l) : ∃ s l', c ∉ s ∧ l = s ++ c :: l' := by
  induction l with
  | nil => cases h
  | cons x l ih =>
    by_cases hx : x = c
    · subst hx
      exact ⟨[], l, List.not_mem_nil, rfl⟩
    · obtain ⟨s, l', hs, rfl⟩ := ih (List.mem_of_ne_of_mem (Ne.symm hx) h)
      exact ⟨x :: s, l', by simp [Ne.symm hx, hs], rfl⟩

end

/-- The key begins with `pfx`. -/
def Under (pfx key : String) : Prop := pfx.toList <+: key.toList

instance (pfx key : String) : Decidable (Under pfx key) :=
  inferInstanceAs (Decidable (pfx.toList <+: key.toList))

/-- What follows the prefix. -/
def rest (pfx key : String) : List Char := key.toList.drop pfx.toList.length

/-- The key after the first `/` that follows the prefix is cut off. -/
def cut (pfx key : String) : String := String.ofList (pfx.toList ++ upTo '/' (rest pfx key))

/-- A key right under the prefix. -/
def Child (pfx key : String) : Prop := ∃ s : List Char, '/' ∉ s ∧ key.toList = pfx.toList ++ s

/-- A folder right under the prefix. -/
def Folder (pfx key : String) : Prop := ∃ s : List Char, '/' ∉ s ∧ key.toList = pfx.toList ++ s ++ ['/']

theorem Under.eq {pfx key : String} (h : Under pfx key) : key.toList = pfx.toList ++ rest pfx key := by
  obtain ⟨s, hs⟩ := h
  unfold rest
  rw [← hs, List.drop_left]

theorem child_iff {pfx key : String} : Child pfx key ↔ Under pfx key ∧ '/' ∉ rest pfx key := by
  constructor
  · rintro ⟨s, hs, heq⟩
    refine ⟨⟨s, heq.symm⟩, ?_⟩
    unfold rest
    rwa [heq, List.drop_left]
  · rintro ⟨h, hs⟩
    exact ⟨_, hs, h.eq⟩

theorem cut_of_child {pfx key : String} (h : Under pfx key) (hs : '/' ∉ rest pfx key) :
    cut pfx key = key := by
  refine String.toList_injective ?_
  unfold cut
  rw [String.toList_ofList, upTo_of_notMem hs, ← h.eq]

/-- **A folder is what a key under it is cut to.** -/
theorem folder_iff {pfx key folder : String} (h : Under pfx key) (hs : '/' ∈ rest pfx key) :
    cut pfx key = folder ↔ Folder pfx folder ∧ folder.toList <+: key.toList := by
  obtain ⟨s, l, hs, hrest⟩ := exists_of_mem hs
  have hcut : (cut pfx key).toList = pfx.toList ++ s ++ ['/'] := by
    unfold cut
    rw [String.toList_ofList, hrest, upTo_append l hs, List.append_assoc]
  constructor
  · rintro rfl
    refine ⟨⟨s, hs, hcut⟩, l, ?_⟩
    rw [hcut, h.eq, hrest]
    simp
  · rintro ⟨⟨s', hs', hfolder⟩, l', hkey⟩
    refine String.toList_injective ?_
    rw [hfolder, h.eq, hrest, List.append_assoc, List.append_assoc, List.append_cancel_left_eq] at hkey
    have hupto := congrArg (upTo '/') hkey
    rw [upTo_append l hs] at hupto
    have hs'' : s' ++ (['/'] ++ l') = s' ++ '/' :: l' := rfl
    rw [hs'', upTo_append l' hs'] at hupto
    rw [hcut, hfolder, List.append_assoc, List.append_assoc, hupto]

/-! ## Pages -/

/-- **A bucket**: its keys, each once, and their sizes. -/
structure Bucket where
  objects : List (String × ℕ)
  nodup : (objects.map Prod.fst).Nodup
  size_le : ∀ o ∈ objects, o.2 ≤ isizeMax

namespace Bucket

variable (b : Bucket) (pfx : String) (recursive : Bool)

/-- The objects that a listing shows: those under the prefix, and without a delimiter in what follows if
there is one. -/
def shown : List (String × ℕ) :=
  b.objects.filter fun o => Under pfx o.1 ∧ (recursive = true ∨ '/' ∉ rest pfx o.1)

/-- The common prefixes of the others. -/
def folders : List String :=
  if recursive then []
  else ((b.objects.filter fun o => Under pfx o.1 ∧ '/' ∈ rest pfx o.1).map fun o => cut pfx o.1).dedup

end Bucket

/-- **Pages of a listing**: all but the last are truncated, tokens are on truncated pages, and tell them
apart. -/
structure Paging (pages : List ListObjectsV2Output) : Prop where
  nonempty : 0 < pages.length
  truncated : ∀ k p, pages[k]? = some p → (p.isTruncated = some true ↔ k + 1 < pages.length)
  token : ∀ p ∈ pages, p.isTruncated = some true ↔ ∃ t, p.nextContinuationToken = some t
  distinct : (pages.map ListObjectsV2Output.nextContinuationToken).Nodup

/-- **The pages show a bucket**: every object and every common prefix of the listing is on one of them,
in any order. -/
structure Shows (b : Bucket) (pfx : String) (recursive : Bool) (pages : List ListObjectsV2Output) :
    Prop where
  objects : (pages.flatMap fun p => (p.contents.getD []).map fun o => (o.key, o.size)).Perm
    ((b.shown pfx recursive).map fun o => (some o.1, some (o.2 : ℤ)))
  folders : (pages.flatMap fun p => (p.commonPrefixes.getD []).map CommonPrefix.pfx).Perm
    ((b.folders pfx recursive).map some)

/-- **The replies among `ms` are these pages**: the request with the token of a page is answered with the
page. -/
def Answered (self : S3Client κ) (pfx : String) (recursive : Bool) (pages : List ListObjectsV2Output)
    (ms : List Msg) : Prop :=
  ∀ k p x, pages[k]? = some p →
    .reply (self.pageRequest pfx recursive (tokenOf pages k)) x ∈ ms → x = .ok p

section

variable {pages : List ListObjectsV2Output} {k j : ℕ} {p : ListObjectsV2Output}

theorem Paging.next (h : Paging pages) (hp : pages[k]? = some p) :
    p.next = tokenOf pages (k + 1) := by
  have htoken := h.token p (List.mem_of_getElem? hp)
  have hof : tokenOf pages (k + 1) = p.nextContinuationToken := by
    rw [tokenOf_succ, hp, Option.bind_some]
  rw [hof]
  cases ht : p.nextContinuationToken with
  | some t => exact ListObjectsV2Output.next_eq_some.mpr ⟨htoken.mpr ⟨t, ht⟩, ht⟩
  | none =>
    cases hn : p.next with
    | none => rfl
    | some t =>
      have := (ListObjectsV2Output.next_eq_some.mp hn).2
      rw [ht] at this
      cases this

/-- A page is the last exactly when it names no other. -/
theorem Paging.next_isSome (h : Paging pages) (hp : pages[k]? = some p) :
    (∃ t, p.next = some t) ↔ k + 1 < pages.length := by
  rw [← h.truncated k p hp]
  constructor
  · rintro ⟨t, ht⟩
    exact (ListObjectsV2Output.next_eq_some.mp ht).1
  · intro ht
    obtain ⟨t, htoken⟩ := (h.token p (List.mem_of_getElem? hp)).mp ht
    exact ⟨t, ListObjectsV2Output.next_eq_some.mpr ⟨ht, htoken⟩⟩

/-- **The tokens tell the pages apart.** -/
theorem Paging.token_inj (h : Paging pages) (hj : j < pages.length) (hk : k < pages.length)
    (heq : tokenOf pages j = tokenOf pages k) : j = k := by
  have hsome : ∀ k, k + 1 < pages.length → ∃ t, tokenOf pages (k + 1) = some t := by
    intro k hk
    have hp := List.getElem?_eq_getElem (Nat.lt_of_succ_lt hk)
    rw [← h.next hp]
    exact (h.next_isSome hp).mpr hk
  cases j with
  | zero =>
    cases k with
    | zero => rfl
    | succ k =>
      obtain ⟨t, ht⟩ := hsome k hk
      rw [ht] at heq
      cases heq
  | succ j =>
    cases k with
    | zero =>
      obtain ⟨t, ht⟩ := hsome j hj
      rw [ht] at heq
      cases heq
    | succ k =>
      have hj' : j < (pages.map ListObjectsV2Output.nextContinuationToken).length := by
        rw [List.length_map]
        omega
      have hk' : k < (pages.map ListObjectsV2Output.nextContinuationToken).length := by
        rw [List.length_map]
        omega
      have hget : (pages.map ListObjectsV2Output.nextContinuationToken)[j] =
          (pages.map ListObjectsV2Output.nextContinuationToken)[k] := by
        rw [List.getElem_map, List.getElem_map]
        rw [tokenOf_succ, tokenOf_succ, List.getElem?_eq_getElem (Nat.lt_of_succ_lt hj),
          List.getElem?_eq_getElem (Nat.lt_of_succ_lt hk)] at heq
        exact heq
      rw [h.distinct.getElem_inj_iff.mp hget]

end

/-! ## What a listing receives -/

section

variable {self : S3Client κ} {pfx : String} {recursive : Bool} {pages ps : List ListObjectsV2Output}
  {token : Option String} {ms : List Msg}

theorem Answered.mono (ms' : List Msg) (h : Answered self pfx recursive pages (ms' ++ ms)) :
    Answered self pfx recursive pages ms :=
  fun k p x hp hm => h k p x hp (List.mem_append_right _ hm)

/-- **The pages received so far** are the first ones, and each was asked for once. -/
theorem Listed.first (h : Listed self pfx recursive ps token ms) (hp : Paging pages)
    (ha : Answered self pfx recursive pages ms) :
    ps = pages.take ps.length ∧ token = tokenOf pages ps.length ∧ ps.length < pages.length ∧
      (requestsOf ms).reverse =
        (List.range ps.length).map fun k => self.pageRequest pfx recursive (tokenOf pages k) := by
  induction h with
  | nil => exact ⟨rfl, rfl, hp.nonempty, rfl⟩
  | @snoc ps token ms resp t h hnext ih =>
    obtain ⟨hps, htoken, hlt, hreq⟩ := ih (Answered.mono [_, _] ha)
    have hpage := List.getElem?_eq_getElem hlt
    have hresp : resp = pages[ps.length] := by
      have := ha ps.length _ (.ok resp) hpage (by rw [htoken]; exact List.mem_cons_self)
      exact Except.ok.inj this
    rw [hresp] at hnext ⊢
    have hlen : (ps ++ [pages[ps.length]]).length = ps.length + 1 := by simp
    rw [hlen]
    refine ⟨?_, ?_, (hp.next_isSome hpage).mp ⟨t, hnext⟩, ?_⟩
    · rw [List.take_add_one, ← hps, hpage, Option.toList_some]
    · rw [← hp.next hpage, hnext]
    · rw [List.range_succ, List.map_append, ← hreq, htoken]
      exact List.reverse_cons

theorem ListTalk.count_le (h : ListTalk self pfx recursive ms) (hp : Paging pages)
    (ha : Answered self pfx recursive pages ms) : ms.countP Msg.isReply ≤ pages.length := by
  cases h with
  | idle h =>
    rw [h.count]
    exact (h.first hp ha).2.2.1.le
  | @asked ps token ms h =>
    rw [List.countP_cons, h.count]
    exact (h.first hp (Answered.mono [_] ha)).2.2.1.le
  | @told ps token ms x h =>
    rw [List.countP_cons, List.countP_cons, h.count]
    exact (h.first hp (Answered.mono [_, _] ha)).2.2.1

/-- **The result of a listing that receives these pages** is what is on them, and each was asked for
once. -/
theorem FullListing.all {L : Prop} {r : S3Result (List ObjectEntry)}
    (h : FullListing self pfx recursive L ms r) (hp : Paging pages)
    (ha : Answered self pfx recursive pages ms) :
    (L ∧ ms = [] ∧ r = .error (Acquire.one.timeoutError Half.read.name)) ∨
      (requestsOf ms).reverse = (List.range pages.length).map (fun k =>
        self.pageRequest pfx recursive (tokenOf pages k)) ∧ r = .ok (pages.flatMap self.pageEntries) := by
  cases h with
  | lost h => exact Or.inl ⟨h, rfl, rfl⟩
  | @failed ps token ms e h =>
    obtain ⟨-, htoken, hlt, -⟩ := h.first hp (Answered.mono [_, _] ha)
    have := ha ps.length _ (.error e) (List.getElem?_eq_getElem hlt)
      (by rw [htoken]; exact List.mem_cons_self)
    cases this
  | @done ps token ms resp h hnext =>
    obtain ⟨hps, htoken, hlt, hreq⟩ := h.first hp (Answered.mono [_, _] ha)
    have hpage := List.getElem?_eq_getElem hlt
    have hresp : resp = pages[ps.length] := by
      have := ha ps.length _ (.ok resp) hpage (by rw [htoken]; exact List.mem_cons_self)
      exact Except.ok.inj this
    have hlast : ps.length + 1 = pages.length := by
      by_contra hne
      obtain ⟨t, ht⟩ := (hp.next_isSome hpage).mpr (by omega)
      rw [← hresp, hnext] at ht
      cases ht
    have hall : ps ++ [resp] = pages := by
      have htake := List.take_add_one (l := pages) (i := ps.length)
      rw [hpage, ← hps, ← hresp, hlast, List.take_length, Option.toList_some] at htake
      exact htake.symm
    refine Or.inr ⟨?_, by rw [hall]⟩
    rw [← hlast, List.range_succ, List.map_append, ← hreq, htoken]
    exact List.reverse_cons

end

/-! ## Runs of a listing -/

theorem pageAfter_eq {pages : List ListObjectsV2Output} (hp : Paging pages) {k : ℕ}
    {p : ListObjectsV2Output} (h : pages[k]? = some p) : pageAfter pages (tokenOf pages k) = some p := by
  have hk : k < pages.length := (List.getElem?_eq_some_iff.mp h).1
  unfold pageAfter
  cases hf : (List.range pages.length).find? fun j => tokenOf pages j = tokenOf pages k with
  | none =>
    have := List.find?_eq_none.mp hf k (List.mem_range.mpr hk)
    simp at this
  | some j =>
    have hj := List.mem_range.mp (List.mem_of_find?_eq_some hf)
    have heq : tokenOf pages j = tokenOf pages k := by simpa using List.find?_some hf
    obtain rfl := hp.token_inj hj hk heq
    exact h

theorem answered_showing {self : S3Client κ} {pfx : String} {recursive : Bool}
    {pages : List ListObjectsV2Output} (hp : Paging pages) {τ : History (S3 κ)} (t : ℕ) {y : Note (S3 κ)}
    (h : Answered self pfx recursive pages (said τ))
    (hy : ∀ e, y = .event e → e.Heeds (showing pages)) :
    Answered self pfx recursive pages (said ((t, y) :: τ)) := by
  have hcons : ∀ m : Msg, (∀ k p x, pages[k]? = some p →
      m = .reply (self.pageRequest pfx recursive (tokenOf pages k)) x → x = .ok p) →
      Answered self pfx recursive pages (m :: said τ) := by
    intro m hm k p x hk hx
    rcases List.mem_cons.mp hx with hx | hx
    · exact hm k p x hk hx.symm
    · exact h k p x hk hx
  cases y with
  | read => exact h
  | order js => exact h
  | event e =>
    cases e with
    | sent n q => cases q <;> exact hcons _ fun k p x _ hx => absurd hx Msg.noConfusion
    | answered n q x =>
      obtain rfl : x = showing pages q := hy _ rfl
      cases q with
      | http r =>
        refine hcons _ fun k p x hk heq => ?_
        cases heq
        show ((pageAfter pages (tokenOf pages k)).map _).getD _ = _
        rw [pageAfter_eq hp hk]
        rfl
      | collect b => exact hcons _ fun k p x _ hx => absurd hx Msg.noConfusion
    | _ => exact h

theorem turn_zero_or {α : Type} (q : Prog (S3 κ) α) : q.turn = 0 ∨ q.Turns q.turn := by
  cases q with
  | loop body i f k =>
    rcases Nat.eq_zero_or_pos i with rfl | hi
    · exact Or.inl rfl
    · exact Or.inr ⟨rfl, hi.ne'⟩
  | _ => exact Or.inl rfl

/-- **A listing returns**, whatever the schedule is. -/
theorem list_returns (self : S3Client κ) (pfx : String) (recursive : Bool)
    {pages : List ListObjectsV2Output} (hp : Paging pages) :
    ((Op.list pfx recursive).program self).Returns fun τ =>
      Answered self pfx recursive pages (said τ) := by
  have hroom : Room self .read (fun _ => True) fun _ w => 0 < w :=
    ⟨trivial, trivial, fun _ _ => Nat.one_pos, self.valid.concurrency.1⟩
  have hsafe := op_permits (.list pfx recursive) hroom
  refine Prog.returns_of_safe hsafe ?_ (showing pages) (fun τ t y h hy => answered_showing hp t h hy)
    pages.length ?_
  · rintro g w ⟨a, -, hw⟩
    exact hw
  · intro τ q hr ha
    have hm := list_transcript.run hr
    rw [List.append_nil] at hm
    rcases turn_zero_or q with h | h
    · rw [h]
      exact Nat.zero_le _
    · exact (hm.turn _ h).trans (hm.always.count_le hp ha)

/-! ## What is listed -/

section

variable {b : Bucket} {pfx : String} {recursive : Bool} {pages : List ListObjectsV2Output}
  {self : S3Client κ}

variable (self) in
/-- **The entries of the pages** are the objects and the folders that they show. -/
theorem Shows.entries (h : Shows b pfx recursive pages) :
    ((pages.flatMap self.pageEntries).map fun e => (e.key, e.size)).Perm
      (b.shown pfx recursive ++ (b.folders pfx recursive).map fun k => (k, 0)) := by
  have hpage : ∀ p, (self.pageEntries p).map (fun e => (e.key, e.size)) =
      ((p.contents.getD []).map fun o => (o.key, o.size)).map (fun o => (o.1.getD "", asU64 (o.2.getD 0))) ++
      ((p.commonPrefixes.getD []).map CommonPrefix.pfx).filterMap (Option.map fun k => (k, 0)) := by
    intro p
    unfold S3Client.pageEntries
    rw [List.map_append, List.map_map, List.map_map, List.map_filterMap, List.filterMap_map]
    congr 1
    refine List.filterMap_congr fun c _ => ?_
    obtain ⟨k⟩ := c
    cases k <;> rfl
  have hshown : ((b.shown pfx recursive).map fun o => (some o.1, some (o.2 : ℤ))).map
      (fun o => (o.1.getD "", asU64 (o.2.getD 0))) = b.shown pfx recursive := by
    rw [List.map_map]
    refine (List.map_congr_left fun o ho => ?_).trans (List.map_id _)
    have hle := b.size_le o (List.mem_of_mem_filter ho)
    rw [Function.comp_apply, Option.getD_some, Option.getD_some, asU64_length hle]
    rfl
  have hfolders : ((b.folders pfx recursive).map some).filterMap (Option.map fun k => (k, 0)) =
      (b.folders pfx recursive).map fun k => (k, 0) := by
    rw [List.filterMap_map, ← List.filterMap_eq_map]
    rfl
  rw [List.map_flatMap, ← hshown, ← hfolders]
  simp only [hpage]
  refine (List.flatMap_append_perm _ _ _).symm.trans ?_
  rw [← List.map_flatMap, ← List.filterMap_flatMap]
  exact (h.objects.map _).append (h.folders.filterMap _)

theorem mem_shown {k : String} {n : ℕ} : (k, n) ∈ b.shown pfx recursive ↔
    (k, n) ∈ b.objects ∧ Under pfx k ∧ (recursive = true ∨ '/' ∉ rest pfx k) := by
  unfold Bucket.shown
  rw [List.mem_filter, decide_eq_true_eq]

theorem folder_mem {k : String} : k ∈ b.folders pfx false ↔
    ∃ o ∈ b.objects, (Under pfx o.1 ∧ '/' ∈ rest pfx o.1) ∧ cut pfx o.1 = k := by
  unfold Bucket.folders
  simp only [Bool.false_eq_true, if_false, List.mem_dedup, List.mem_map, List.mem_filter,
    decide_eq_true_eq, and_assoc]

/-- **The folders** are those right under the prefix that have a key. -/
theorem mem_folders {k : String} : k ∈ b.folders pfx false ↔
    Folder pfx k ∧ ∃ o ∈ b.objects, k.toList <+: o.1.toList := by
  rw [folder_mem]
  constructor
  · rintro ⟨o, ho, ⟨hu, hs⟩, hcut⟩
    obtain ⟨hfolder, hpre⟩ := (folder_iff hu hs).mp hcut
    exact ⟨hfolder, o, ho, hpre⟩
  · rintro ⟨hfolder, o, ho, hpre⟩
    obtain ⟨s, hs, heq⟩ := hfolder
    have hu : Under pfx o.1 := by
      refine List.IsPrefix.trans ⟨s ++ ['/'], ?_⟩ hpre
      rw [heq, List.append_assoc]
    have hmem : '/' ∈ rest pfx o.1 := by
      obtain ⟨l, hl⟩ := hpre
      unfold rest
      rw [← hl, heq, List.append_assoc, List.append_assoc, List.drop_left]
      simp
    exact ⟨o, ho, ⟨hu, hmem⟩, (folder_iff hu hmem).mpr ⟨⟨s, hs, heq⟩, hpre⟩⟩

theorem shown_disjoint {k : String} {n : ℕ} (h : (k, n) ∈ b.shown pfx false) : ¬ Folder pfx k := by
  rintro ⟨s, hs, heq⟩
  obtain ⟨-, -, hrest⟩ := mem_shown.mp h
  refine hrest.resolve_left Bool.false_ne_true ?_
  unfold rest
  rw [heq, List.append_assoc, List.drop_left]
  simp

/-- **Nothing is listed twice.** -/
theorem listed_nodup : ((b.shown pfx recursive ++ (b.folders pfx recursive).map fun k => (k, 0)).map
    Prod.fst).Nodup := by
  have hkeys : ((b.folders pfx recursive).map fun k => (k, 0)).map Prod.fst = b.folders pfx recursive := by
    rw [List.map_map]
    exact List.map_id _
  have hshown : ((b.shown pfx recursive).map Prod.fst).Nodup :=
    b.nodup.sublist (List.filter_sublist.map _)
  rw [List.map_append, hkeys]
  cases recursive with
  | true => simpa [Bucket.folders] using hshown
  | false =>
    refine hshown.append ?_ fun k hk hf => ?_
    · unfold Bucket.folders
      exact List.nodup_dedup _
    · obtain ⟨⟨k', n⟩, ho, rfl⟩ := List.mem_map.mp hk
      exact shown_disjoint ho (mem_folders.mp hf).1

/-- **The keys of a listing with a delimiter** are those of one without, cut after it. -/
theorem listed_cut {k : String} :
    (∃ n, (k, n) ∈ b.shown pfx false ++ (b.folders pfx false).map fun k => (k, 0)) ↔
      ∃ o ∈ b.objects, Under pfx o.1 ∧ cut pfx o.1 = k := by
  constructor
  · rintro ⟨n, hn⟩
    rcases List.mem_append.mp hn with hn | hn
    · obtain ⟨ho, hu, hs⟩ := mem_shown.mp hn
      exact ⟨_, ho, hu, cut_of_child hu (hs.resolve_left Bool.false_ne_true)⟩
    · obtain ⟨k', hk, heq⟩ := List.mem_map.mp hn
      cases heq
      obtain ⟨o, ho, ⟨hu, -⟩, hcut⟩ := folder_mem.mp hk
      exact ⟨o, ho, hu, hcut⟩
  · rintro ⟨⟨k', n⟩, ho, hu, rfl⟩
    by_cases hs : '/' ∈ rest pfx k'
    · refine ⟨0, List.mem_append_right _ (List.mem_map.mpr ⟨_, ?_, rfl⟩)⟩
      exact folder_mem.mpr ⟨_, ho, ⟨hu, hs⟩, rfl⟩
    · refine ⟨n, List.mem_append_left _ (mem_shown.mpr ?_)⟩
      rw [cut_of_child hu hs]
      exact ⟨ho, hu, Or.inr hs⟩

end

/-! ## Every listing -/

/-- **Listings are complete.** While the service shows a bucket, in pages cut anyhow, `list_objects`
returns. Unless its acquisition is lost it asks once for every page, and its result has no key twice. A
recursive listing has every object under the prefix. Another one has the objects right under the prefix
and, with size 0, the folders right under it that have a key: the keys under the prefix, cut after the
first `/` that follows it. -/
theorem listing_complete (self : S3Client κ) (b : Bucket) (pfx : String) (recursive : Bool)
    {pages : List ListObjectsV2Output} (hp : Paging pages) (hb : Shows b pfx recursive pages) :
    let Held := fun τ : History (S3 κ) => Answered self pfx recursive pages (said τ)
    ((Op.list pfx recursive).program self).Returns Held ∧
    ∀ τ r, ((Op.list pfx recursive).program self).Runs τ (.ret r) → Held τ →
      (.lost (self.pool, .read) .one ∈ τ.events ∧ said τ = [] ∧
        r = .error (Acquire.one.timeoutError Half.read.name)) ∨
      ((requestsOf (said τ)).reverse = (List.range pages.length).map (fun k =>
          self.pageRequest pfx recursive (tokenOf pages k)) ∧
        ∃ es : List ObjectEntry, r = .ok (.entries es) ∧ (es.map ObjectEntry.key).Nodup ∧
          (recursive = true → ∀ k n, (k, n) ∈ es.map (fun e => (e.key, e.size)) ↔
            (k, n) ∈ b.objects ∧ Under pfx k) ∧
          (recursive = false →
            (∀ k n, (k, n) ∈ es.map (fun e => (e.key, e.size)) ↔
              ((k, n) ∈ b.objects ∧ Child pfx k) ∨
                (n = 0 ∧ Folder pfx k ∧ ∃ o ∈ b.objects, k.toList <+: o.1.toList)) ∧
            ∀ k, k ∈ es.map ObjectEntry.key ↔ ∃ o ∈ b.objects, Under pfx o.1 ∧ cut pfx o.1 = k)) := by
  intro Held
  refine ⟨list_returns self pfx recursive hp, fun τ r hr ha => ?_⟩
  obtain ⟨r', rfl, hfull⟩ := (list_transcript.run hr).result r rfl
  rw [List.append_nil] at hfull
  rcases hfull.all hp ha with ⟨hlost, hnone, rfl⟩ | ⟨hreq, rfl⟩
  · exact Or.inl ⟨hlost, hnone, rfl⟩
  · have hes := hb.entries self
    generalize pages.flatMap self.pageEntries = es at hes ⊢
    have hkeys : (es.map fun e => (e.key, e.size)).map Prod.fst = es.map ObjectEntry.key := by
      rw [List.map_map]
      rfl
    refine Or.inr ⟨hreq, es, rfl, ?_, ?_, ?_⟩
    · rw [← hkeys]
      exact (hes.map Prod.fst).nodup_iff.mpr listed_nodup
    · rintro rfl k n
      rw [hes.mem_iff, show b.folders pfx true = [] from rfl, List.map_nil, List.append_nil, mem_shown]
      simp
    · rintro rfl
      refine ⟨fun k n => ?_, fun k => ?_⟩
      · rw [hes.mem_iff, List.mem_append, mem_shown, child_iff]
        refine or_congr (by simp) ?_
        rw [List.mem_map, ← mem_folders]
        constructor
        · rintro ⟨k', hk, heq⟩
          cases heq
          exact ⟨rfl, hk⟩
        · rintro ⟨rfl, hk⟩
          exact ⟨k, hk, rfl⟩
      · rw [← listed_cut, ← hkeys, List.mem_map]
        constructor
        · rintro ⟨⟨k', n⟩, hk, rfl⟩
          exact ⟨n, hes.mem_iff.mp hk⟩
        · rintro ⟨n, hn⟩
          exact ⟨(k, n), hes.mem_iff.mpr hn, rfl⟩

/-- A bucket with a folder. -/
def folderBucket : Bucket := ⟨[("a/b", 1), ("c", 2)], by decide, by decide⟩

/-- Its listing in two pages. -/
def folderPages : List ListObjectsV2Output :=
  [⟨none, some [⟨some "a/"⟩], some true, some "token"⟩, ⟨some [⟨some "c", some 2, none, none⟩], none, none, none⟩]

theorem folder_paging : Paging folderPages where
  nonempty := by decide
  truncated k p h := by
    match k with
    | 0 =>
      cases h
      decide
    | 1 =>
      cases h
      decide
    | k + 2 => cases h
  token p h := by
    rcases List.mem_cons.mp h with rfl | h
    · exact ⟨fun _ => ⟨"token", rfl⟩, fun _ => rfl⟩
    · obtain rfl := List.mem_singleton.mp h
      exact ⟨nofun, fun ⟨t, ht⟩ => nomatch ht⟩
  distinct := by decide

theorem folder_shows : Shows folderBucket "" false folderPages where
  objects := by decide
  folders := by decide

/-- A listing in two pages, of the folder and of the object. -/
theorem listing_complete_folder : ∃ (τ : History (S3 Unit)) (es : List ObjectEntry),
    ((Op.list "" false).program smallClient).Runs τ (.ret (.ok (.entries es))) ∧
    (requestsOf (said τ)).reverse = [smallClient.pageRequest "" false none,
      smallClient.pageRequest "" false (some "token")] ∧
    (es.map ObjectEntry.key).Nodup ∧ ("a/", 0) ∈ es.map (fun e => (e.key, e.size)) ∧
    ("c", 2) ∈ es.map (fun e => (e.key, e.size)) := by
  obtain ⟨l, s, hr, hrun⟩ := (smallSetup fun _ : Fin 1 => .list "" false).observe
    (fun _ => showing folderPages) (List.replicate 30 (0, .go))
    (fun s => ((s.procs 0).mode, messages (s.procs 0).trace))
    (v := (.ended (some (.ok (.entries [⟨"a/", 0, none, none⟩, ⟨"c", 2, none, none⟩]))),
      [.reply (smallClient.pageRequest "" false (some "token")) (.ok ⟨some [⟨some "c", some 2, none, none⟩],
          none, none, none⟩),
        .request (smallClient.pageRequest "" false (some "token")),
        .reply (smallClient.pageRequest "" false none) (.ok ⟨none, some [⟨some "a/"⟩], some true,
          some "token"⟩),
        .request (smallClient.pageRequest "" false none)])) rfl
  obtain ⟨hm, hmsgs⟩ := Prod.mk.inj hrun
  obtain ⟨τ, hτ⟩ := follows_run hr 0
  have hruns := hτ.reached.runs hm
  rw [hτ.trace, messages_events] at hmsgs
  have hheld : Answered smallClient "" false folderPages (said τ) := by
    intro k p x hp hx
    rw [hmsgs] at hx
    simp only [List.mem_cons, List.not_mem_nil, or_false, reduceCtorEq, false_or] at hx
    match k with
    | 0 =>
      cases hp
      rcases hx with hx | hx <;> cases hx
      rfl
    | 1 =>
      cases hp
      rcases hx with hx | hx <;> cases hx
      rfl
    | k + 2 => cases hp
  rcases (listing_complete smallClient folderBucket "" false folder_paging folder_shows).2 τ _ hruns hheld
    with ⟨-, -, hlost⟩ | ⟨hreq, es, hes, hnodup, -, hall⟩
  · cases hlost
  · obtain ⟨hmem, -⟩ := hall rfl
    cases hes
    refine ⟨τ, _, hruns, hreq, hnodup, (hmem _ _).mpr (Or.inr ⟨rfl, ?_, ?_⟩), (hmem _ _).mpr (Or.inl ⟨?_, ?_⟩)⟩
    · exact ⟨['a'], by decide, rfl⟩
    · exact ⟨("a/b", 1), by decide, by decide⟩
    · decide
    · exact ⟨['c'], by decide, rfl⟩

end S3o
