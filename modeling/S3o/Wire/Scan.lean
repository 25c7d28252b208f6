import Mathlib.Data.String.Basic
import S3o.Wire.Bucket

/-!
# Listings of a bucket that changes

The pages of a listing are served one after another, and objects may come and go in between. Each page
shows a part of what the bucket holds when it is served: the names after the place that the token of the
request stands for, up to the place where the next page begins.

* `Between`, `exists_between`, `between_unique`: windows that follow one another;
* `Bucket.listed`, `Bucket.within`: what a listing shows of a bucket, and of a part of it;
* `Scanned`: the pages of a bucket that changes while it is listed;
* **`listing_while_changing`**: nothing is listed twice, what is listed was there, and what was there all
  the time is listed.
-/

namespace S3o

open Async Lts

/-! ## Windows -/

section

variable {α : Type*} [LinearOrder α]

/-- After `lo`, and not after `hi`. -/
def Between (lo hi : Option α) (x : α) : Prop := (∀ a ∈ lo, a < x) ∧ ∀ z ∈ hi, x ≤ z

instance (lo hi : Option α) (x : α) : Decidable (Between lo hi x) :=
  inferInstanceAs (Decidable ((∀ a ∈ lo, a < x) ∧ ∀ z ∈ hi, x ≤ z))

variable {lo hi : ℕ → Option α} {n : ℕ} {x : α}

/-- **Windows that begin where the one before ends leave nothing out.** -/
theorem exists_between (hn : 0 < n) (h₀ : lo 0 = none) (hlast : hi (n - 1) = none)
    (hnext : ∀ k, k + 1 < n → hi k = lo (k + 1)) : ∃ k, k < n ∧ Between (lo k) (hi k) x := by
  -- the last window that begins before `x`
  have hbefore : ∀ k, k < n → (∀ a ∈ lo k, a < x) → ∃ k, k < n ∧ Between (lo k) (hi k) x := by
    intro k hk hlo
    obtain ⟨d, hd⟩ : ∃ d, k + d = n - 1 := ⟨n - 1 - k, by omega⟩
    induction d generalizing k with
    | zero =>
      obtain rfl : k = n - 1 := hd
      exact ⟨_, hk, hlo, by rw [hlast]; exact nofun⟩
    | succ d ih =>
      by_cases hstop : ∀ z ∈ hi k, x ≤ z
      · exact ⟨k, hk, hlo, hstop⟩
      · refine ih (k + 1) (by omega) ?_ (by omega)
        rw [← hnext k (by omega)]
        push Not at hstop
        obtain ⟨z, hz, hlt⟩ := hstop
        intro a ha
        obtain rfl : z = a := Option.some.inj (hz.symm.trans ha)
        exact hlt
  exact hbefore 0 hn (by rw [h₀]; exact nofun)

/-- **Windows that never go back are apart.** -/
theorem between_unique (hnext : ∀ k, k + 1 < n → hi k = lo (k + 1))
    (hsome : ∀ k, k + 1 < n → ∃ a, lo (k + 1) = some a)
    (hmono : ∀ k a b, k + 1 < n → lo k = some a → lo (k + 1) = some b → a ≤ b)
    {j k : ℕ} (hjk : j < k) (hk : k < n) (hj : Between (lo j) (hi j) x) : ¬ Between (lo k) (hi k) x := by
  have hend : ∀ k, j < k → k < n → ∀ a, lo k = some a → x ≤ a := by
    intro k hjk hk
    induction k with
    | zero => exact absurd hjk (Nat.not_lt_zero j)
    | succ k ih =>
      intro b hb
      rcases Nat.lt_succ_iff_lt_or_eq.mp hjk with hlt | rfl
      · obtain ⟨k', rfl⟩ : ∃ k', k = k' + 1 := ⟨k - 1, by omega⟩
        obtain ⟨a, ha⟩ := hsome k' (by omega)
        exact (ih hlt (by omega) a ha).trans (hmono (k' + 1) a b hk ha hb)
      · exact hj.2 b ((hnext j hk).trans hb)
  intro hbetween
  obtain ⟨k', rfl⟩ : ∃ k', k = k' + 1 := ⟨k - 1, by omega⟩
  obtain ⟨a, ha⟩ := hsome k' hk
  exact absurd (hend (k' + 1) hjk hk a ha) (not_le.mpr (hbetween.1 a ha))

end

/-! ## Parts of a bucket -/

variable {κ ι : Type} {pfx : String} {recursive : Bool} {lo hi : Option String}

/-- The name under which a listing shows a key. -/
def shownAs (pfx : String) (recursive : Bool) (key : String) : String :=
  if recursive then key else cut pfx key

namespace Bucket

variable (b : Bucket)

/-- **What a listing shows**: the objects with their sizes, and the common prefixes. -/
def listed (pfx : String) (recursive : Bool) : List (String × ℕ) :=
  b.shown pfx recursive ++ (b.folders pfx recursive).map fun k => (k, 0)

/-- The part of the bucket that is shown under the names after `lo`, up to `hi`. -/
def within (pfx : String) (recursive : Bool) (lo hi : Option String) : Bucket where
  objects := b.objects.filter fun o => Between lo hi (shownAs pfx recursive o.1)
  nodup := b.nodup.sublist (List.filter_sublist.map _)
  size_le o ho := b.size_le o (List.mem_of_mem_filter ho)

variable {b} {k : String} {n : ℕ}

theorem shownAs_of_shown (h : (k, n) ∈ b.shown pfx recursive) : shownAs pfx recursive k = k := by
  obtain ⟨-, hu, hs⟩ := mem_shown.mp h
  unfold shownAs
  split_ifs with hr
  · rfl
  · exact cut_of_child hu (hs.resolve_left hr)

/-- **The part of a bucket shows a part of the listing.** -/
theorem mem_within : (k, n) ∈ (b.within pfx recursive lo hi).listed pfx recursive ↔
    (k, n) ∈ b.listed pfx recursive ∧ Between lo hi k := by
  have hobject : ∀ o : String × ℕ, o ∈ (b.within pfx recursive lo hi).objects ↔
      o ∈ b.objects ∧ Between lo hi (shownAs pfx recursive o.1) := by
    intro o
    unfold within
    rw [List.mem_filter, decide_eq_true_eq]
  have hshown : (k, n) ∈ (b.within pfx recursive lo hi).shown pfx recursive ↔
      (k, n) ∈ b.shown pfx recursive ∧ Between lo hi k := by
    constructor
    · intro h
      have hname := shownAs_of_shown h
      obtain ⟨ho, hu⟩ := mem_shown.mp h
      obtain ⟨ho, hb⟩ := (hobject _).mp ho
      exact ⟨mem_shown.mpr ⟨ho, hu⟩, hname ▸ hb⟩
    · rintro ⟨h, hb⟩
      obtain ⟨ho, hu⟩ := mem_shown.mp h
      exact mem_shown.mpr ⟨(hobject _).mpr ⟨ho, (shownAs_of_shown h).symm ▸ hb⟩, hu⟩
  have hfolder : ∀ k : String, k ∈ (b.within pfx recursive lo hi).folders pfx recursive ↔
      k ∈ b.folders pfx recursive ∧ Between lo hi k := by
    intro k
    cases recursive with
    | true => simp [folders]
    | false =>
      rw [folder_mem, folder_mem]
      constructor
      · rintro ⟨o, ho, hu, rfl⟩
        obtain ⟨ho, hb⟩ := (hobject o).mp ho
        exact ⟨⟨o, ho, hu, rfl⟩, hb⟩
      · rintro ⟨⟨o, ho, hu, rfl⟩, hb⟩
        exact ⟨o, (hobject o).mpr ⟨ho, hb⟩, hu, rfl⟩
  unfold listed
  rw [List.mem_append, List.mem_append, hshown, or_and_right]
  refine or_congr Iff.rfl ?_
  simp only [List.mem_map, hfolder]
  constructor
  · rintro ⟨k', ⟨hk, hb⟩, heq⟩
    cases heq
    exact ⟨⟨_, hk, rfl⟩, hb⟩
  · rintro ⟨⟨k', hk, heq⟩, hb⟩
    cases heq
    exact ⟨_, ⟨hk, hb⟩, rfl⟩

end Bucket

/-! ## The pages -/

/-- The place after which page `k` begins. -/
def pageFrom (place : String → String) (pages : List ListObjectsV2Output) (k : ℕ) : Option String :=
  (tokenOf pages k).map place

/-- The place where page `k` ends. -/
def pageTo (place : String → String) (pages : List ListObjectsV2Output) (k : ℕ) : Option String :=
  (pages[k]?.bind ListObjectsV2Output.next).map place

/-- **The pages of a bucket that changes while it is listed.** Page `k` shows what `b k`, the content of
the bucket at its moment, has after the place of the token of its request, up to the place of its own token;
and places go forward. -/
structure Scanned (b : ℕ → Bucket) (pfx : String) (recursive : Bool) (place : String → String)
    (pages : List ListObjectsV2Output) : Prop where
  shows : ∀ k p, pages[k]? = some p → Shows ((b k).within pfx recursive (pageFrom place pages k)
    (pageTo place pages k)) pfx recursive [p]
  forward : ∀ k x z, pageFrom place pages k = some x → pageTo place pages k = some z → x ≤ z

/-- Every page but the last names the next one. -/
structure Chained (pages : List ListObjectsV2Output) : Prop where
  nonempty : 0 < pages.length
  next : ∀ k p, pages[k]? = some p → k + 1 < pages.length → ∃ t, p.next = some t
  last : ∀ k p, pages[k]? = some p → k + 1 = pages.length → p.next = none

section

variable {self : S3Client κ} {ps pages : List ListObjectsV2Output} {token : Option String} {ms : List Msg}
  {b : ℕ → Bucket} {place : String → String} {p : ListObjectsV2Output} {k n : ℕ} {name : String}

theorem tokenOf_append (resp : ListObjectsV2Output) (h : k ≤ ps.length) :
    tokenOf (ps ++ [resp]) k = tokenOf ps k := by
  cases k with
  | zero => rfl
  | succ k => rw [tokenOf_succ, tokenOf_succ, List.getElem?_append_left h]

theorem tokenOf_next {t : String} (hp : pages[k]? = some p) (ht : p.next = some t) :
    tokenOf pages (k + 1) = some t := by
  rw [tokenOf_succ, hp, Option.bind_some]
  exact (ListObjectsV2Output.next_eq_some.mp ht).2

theorem asking {rs : List Request}
    (h : rs.reverse = (List.range ps.length).map fun k => self.pageRequest pfx recursive (tokenOf ps k))
    (hpages : ∀ k, k ≤ ps.length → tokenOf pages k = tokenOf ps k) :
    (self.pageRequest pfx recursive (tokenOf ps ps.length) :: rs).reverse =
      (List.range (ps.length + 1)).map fun k => self.pageRequest pfx recursive (tokenOf pages k) := by
  have hold : ∀ k ∈ List.range ps.length, self.pageRequest pfx recursive (tokenOf pages k) =
      self.pageRequest pfx recursive (tokenOf ps k) := by
    intro k hk
    rw [hpages k (List.mem_range.mp hk).le]
  rw [List.reverse_cons, h, List.range_succ, List.map_append, List.map_congr_left hold,
    List.map_singleton, hpages _ le_rfl]

/-- **The requests of a listing**: one for every page, each with the token of the page before. -/
theorem Listed.asked (h : Listed self pfx recursive ps token ms) : token = tokenOf ps ps.length ∧
    (requestsOf ms).reverse =
      (List.range ps.length).map fun k => self.pageRequest pfx recursive (tokenOf ps k) := by
  induction h with
  | nil => exact ⟨rfl, rfl⟩
  | @snoc ps token ms resp t h hnext ih =>
    obtain ⟨rfl, hreq⟩ := ih
    have hlen : (ps ++ [resp]).length = ps.length + 1 := by simp
    rw [hlen]
    exact ⟨(tokenOf_next List.getElem?_concat_length hnext).symm,
      asking hreq fun k hk => tokenOf_append resp hk⟩

theorem Listed.length (h : Listed self pfx recursive ps token ms) :
    (requestsOf ms).length = ps.length := by
  have hlen := congrArg List.length h.asked.2
  rwa [List.length_reverse, List.length_map, List.length_range] at hlen

/-- **What a listing has asked for so far**: the pages that it has received, and perhaps one more. -/
theorem ListTalk.requests (h : ListTalk self pfx recursive ms) :
    (requestsOf ms).reverse = (List.range (requestsOf ms).length).map (fun k =>
      self.pageRequest pfx recursive (tokenOf (pagesOf ms) k)) ∧
    (pagesOf ms).length ≤ (requestsOf ms).length ∧ (requestsOf ms).length ≤ (pagesOf ms).length + 1 := by
  cases h with
  | idle h =>
    rw [h.pages, h.length]
    exact ⟨h.asked.2, le_rfl, Nat.le_succ _⟩
  | @asked ps token ms h =>
    obtain ⟨rfl, hreq⟩ := h.asked
    have hpages : pagesOf (.request (self.pageRequest pfx recursive (tokenOf ps ps.length)) :: ms) = ps :=
      h.pages
    rw [hpages, requestsOf_request, List.length_cons, h.length]
    exact ⟨asking hreq fun _ _ => rfl, Nat.le_succ _, le_rfl⟩
  | @told ps token ms x h =>
    obtain ⟨rfl, hreq⟩ := h.asked
    have hpages : pagesOf (.reply (self.pageRequest pfx recursive (tokenOf ps ps.length)) x ::
        .request (self.pageRequest pfx recursive (tokenOf ps ps.length)) :: ms) = ps ++ x.toOption.toList := by
      cases x with
      | error e => exact h.pages.trans (List.append_nil ps).symm
      | ok resp => exact (pagesOf_reply resp).trans (congrArg (· ++ [resp]) h.pages)
    have hlength : (requestsOf (.reply (self.pageRequest pfx recursive (tokenOf ps ps.length)) x ::
        .request (self.pageRequest pfx recursive (tokenOf ps ps.length)) :: ms)).length =
          ps.length + 1 := congrArg Nat.succ h.length
    rw [hpages, hlength, List.length_append]
    refine ⟨asking hreq fun k hk => ?_, ?_, Nat.add_le_add_right (Nat.le_add_right _ _) 1⟩
    · cases x with
      | error e => exact congrArg (tokenOf · k) (List.append_nil ps)
      | ok resp => exact tokenOf_append resp hk
    · cases x with
      | error e => exact Nat.le_succ _
      | ok resp => exact le_rfl

theorem FullListing.length {L : Prop} {es : List ObjectEntry}
    (h : FullListing self pfx recursive L ms (.ok es)) :
    (requestsOf ms).length = (pagesOf ms).length := by
  cases h with
  | done resp h hnext =>
    rw [requestsOf_reply, requestsOf_request, List.length_cons, h.length, pagesOf_reply, h.pages,
      List.length_append, List.length_singleton]

theorem chained {resp : ListObjectsV2Output} (hps : ∀ p ∈ ps, ∃ t, p.next = some t)
    (hresp : resp.next = none) : Chained (ps ++ [resp]) := by
  have hlen : (ps ++ [resp]).length = ps.length + 1 := by simp
  refine ⟨by omega, fun k p hp hk => ?_, fun k p hp hk => ?_⟩
  · rw [List.getElem?_append_left (by omega)] at hp
    exact hps p (List.mem_of_getElem? hp)
  · obtain rfl : k = ps.length := by omega
    rw [List.getElem?_concat_length] at hp
    exact Option.some.inj hp ▸ hresp

/-- A page begins where the one before ends. -/
theorem Chained.pageTo_eq (h : Chained pages) (place : String → String) (hk : k + 1 < pages.length) :
    pageTo place pages k = pageFrom place pages (k + 1) := by
  have hp := List.getElem?_eq_getElem (Nat.lt_of_succ_lt hk)
  obtain ⟨t, ht⟩ := h.next k _ hp hk
  unfold pageTo pageFrom
  rw [tokenOf_next hp ht, hp, Option.bind_some, ht]

theorem Chained.pageFrom_isSome (h : Chained pages) (place : String → String) (hk : k + 1 < pages.length) :
    ∃ x, pageFrom place pages (k + 1) = some x := by
  have hp := List.getElem?_eq_getElem (Nat.lt_of_succ_lt hk)
  obtain ⟨t, ht⟩ := h.next k _ hp hk
  exact ⟨place t, congrArg (Option.map place) (tokenOf_next hp ht)⟩

/-- The last page has no end. -/
theorem Chained.pageTo_last (h : Chained pages) (place : String → String) :
    pageTo place pages (pages.length - 1) = none := by
  have hlt : pages.length - 1 < pages.length := Nat.sub_one_lt h.nonempty.ne'
  have hp := List.getElem?_eq_getElem hlt
  unfold pageTo
  rw [hp, Option.bind_some, h.last _ _ hp (Nat.succ_pred_eq_of_pos h.nonempty), Option.map_none]

/-! ## What is listed -/

variable (self) in
/-- **The entries of a page** are a part of the listing. -/
theorem Scanned.entries (h : Scanned b pfx recursive place pages) (hp : pages[k]? = some p) :
    ((self.pageEntries p).map fun e => (e.key, e.size)).Perm (((b k).within pfx recursive
      (pageFrom place pages k) (pageTo place pages k)).listed pfx recursive) := by
  have := (h.shows k p hp).entries self
  rwa [List.flatMap_singleton] at this

theorem Scanned.mem (h : Scanned b pfx recursive place pages) (hp : pages[k]? = some p) :
    (name, n) ∈ (self.pageEntries p).map (fun e => (e.key, e.size)) ↔
      (name, n) ∈ (b k).listed pfx recursive ∧
        Between (pageFrom place pages k) (pageTo place pages k) name := by
  rw [(h.entries self hp).mem_iff]
  exact Bucket.mem_within

theorem pageEntries_keys (p : ListObjectsV2Output) : (self.pageEntries p).map ObjectEntry.key =
    ((self.pageEntries p).map fun e => (e.key, e.size)).map Prod.fst := by
  rw [List.map_map]
  rfl

/-- **Nothing is listed twice.** -/
theorem Scanned.nodup (h : Scanned b pfx recursive place pages) (hc : Chained pages) :
    ((pages.flatMap self.pageEntries).map ObjectEntry.key).Nodup := by
  rw [List.map_flatMap, List.nodup_flatMap]
  constructor
  · intro p hp
    obtain ⟨k, hk⟩ := List.getElem?_of_mem hp
    rw [pageEntries_keys, ((h.entries self hk).map Prod.fst).nodup_iff]
    exact listed_nodup
  · rw [List.pairwise_iff_getElem]
    intro j k hj hk hjk name hmj hmk
    have hmem : ∀ k (hk : k < pages.length), name ∈ (self.pageEntries pages[k]).map ObjectEntry.key →
        Between (pageFrom place pages k) (pageTo place pages k) name := by
      intro k hk hm
      rw [pageEntries_keys] at hm
      obtain ⟨⟨name', n⟩, hentry, rfl⟩ := List.mem_map.mp hm
      exact ((h.mem (List.getElem?_eq_getElem hk)).mp hentry).2
    refine between_unique (fun k => hc.pageTo_eq place) (fun k => hc.pageFrom_isSome place) ?_ hjk hk
      (hmem j hj hmj) (hmem k hk hmk)
    intro k x z hk hx hz
    exact h.forward k x z hx ((hc.pageTo_eq place hk).trans hz)

/-- **What is listed was there** when its page was served. -/
theorem Scanned.sound (h : Scanned b pfx recursive place pages) {e : ObjectEntry}
    (he : e ∈ pages.flatMap self.pageEntries) : ∃ k p, pages[k]? = some p ∧ e ∈ self.pageEntries p ∧
      (e.key, e.size) ∈ (b k).listed pfx recursive := by
  obtain ⟨p, hp, he⟩ := List.mem_flatMap.mp he
  obtain ⟨k, hk⟩ := List.getElem?_of_mem hp
  exact ⟨k, p, hk, he, ((h.mem hk).mp (List.mem_map_of_mem he)).1⟩

/-- **What was there all the time is listed.** -/
theorem Scanned.complete (h : Scanned b pfx recursive place pages) (hc : Chained pages)
    (hname : ∀ k, k < pages.length → ∃ n, (name, n) ∈ (b k).listed pfx recursive) :
    name ∈ (pages.flatMap self.pageEntries).map ObjectEntry.key := by
  have hstart : pageFrom place pages 0 = none := rfl
  obtain ⟨k, hk, hbetween⟩ := exists_between (x := name) hc.nonempty hstart (hc.pageTo_last place)
    fun k => hc.pageTo_eq place
  obtain ⟨n, hn⟩ := hname k hk
  have hp := List.getElem?_eq_getElem hk
  have hmem : (name, n) ∈ (self.pageEntries pages[k]).map (fun e => (e.key, e.size)) :=
    (h.mem hp).mpr ⟨hn, hbetween⟩
  obtain ⟨e, he, heq⟩ := List.mem_map.mp hmem
  exact List.mem_map.mpr ⟨e, List.mem_flatMap.mpr ⟨_, List.getElem_mem hk, he⟩, congrArg Prod.fst heq⟩

end

/-! ## Every run -/

/-- **Listings of a bucket that changes.** In every state `list_objects` has asked once for each page that
it has received, with the token of the one before, and perhaps for one more. When it succeeds, whatever is
put and deleted between its pages, no name is in its result twice, every entry is on a page and was in the
bucket when that page was served, and every name that was there all the time is in the result. -/
theorem listing_while_changing [DecidableEq κ] [DecidableEq ι] (S : Setup κ ι) {s : Sys κ ι}
    {l : List ((ι × Act κ) × Sys κ ι)} (hr : Run Sys.Step S.init l s) {i : ι} {pfx : String}
    {recursive : Bool} (hop : S.op i = .list pfx recursive) :
    let ms := messages (s.procs i).trace
    let pages := pagesOf ms
    ((requestsOf ms).reverse = (List.range (requestsOf ms).length).map (fun k =>
        (S.client i).pageRequest pfx recursive (tokenOf pages k)) ∧
      pages.length ≤ (requestsOf ms).length ∧ (requestsOf ms).length ≤ pages.length + 1) ∧
    ∀ es : List ObjectEntry, (s.procs i).mode = .ended (some (.ok (.entries es))) →
      (requestsOf ms).length = pages.length ∧
      ∀ (b : ℕ → Bucket) (place : String → String), Scanned b pfx recursive place pages →
        (es.map ObjectEntry.key).Nodup ∧
        (∀ e ∈ es, ∃ k p, pages[k]? = some p ∧ e ∈ (S.client i).pageEntries p ∧
          (e.key, e.size) ∈ (b k).listed pfx recursive) ∧
        ∀ name, (∀ k, k < pages.length → ∃ n, (name, n) ∈ (b k).listed pfx recursive) →
          name ∈ es.map ObjectEntry.key := by
  intro ms pages
  obtain ⟨τ, hτ⟩ := follows_run hr i
  rw [hop] at hτ
  have hsaid : ms = said τ := by
    show messages (s.procs i).trace = said τ
    rw [hτ.trace, messages_events]
  refine ⟨(hsaid ▸ hτ.reached.always list_transcript : ListTalk (S.client i) pfx recursive ms).requests,
    fun es hm => ?_⟩
  obtain ⟨r, hres, hfull⟩ := hτ.reached.returned list_transcript hm
  cases r with
  | error e => cases hres
  | ok es' =>
    cases hres
    rw [← hsaid] at hfull
    refine ⟨hfull.length, fun b place h => ?_⟩
    obtain ⟨ps, resp, hps, hresp, rfl, hpages⟩ := hfull.pages
    have hpages : pages = ps ++ [resp] := hpages
    have hc : Chained pages := hpages ▸ chained hps hresp
    rw [← hpages]
    exact ⟨h.nodup hc, fun e he => h.sound he, fun name hname => h.complete hc hname⟩

def pagedPages : List ListObjectsV2Output :=
  [⟨some [⟨some "a", some 1, none, none⟩], none, some true, some "next"⟩,
    ⟨some [⟨some "c", some 2, none, none⟩], none, none, none⟩]

/-- Between the pages `"a"` is deleted and `"aa"` is put, before the place where the second page begins. -/
def movingBucket (k : ℕ) : Bucket :=
  if k = 0 then ⟨[("a", 1), ("c", 2)], by decide, by decide⟩
  else ⟨[("aa", 7), ("c", 2)], by decide, by decide⟩

theorem moving_scanned : Scanned movingBucket "" true (fun _ => "b") pagedPages where
  shows k p hp := by
    match k with
    | 0 =>
      cases hp
      exact ⟨by decide +kernel, by decide +kernel⟩
    | 1 =>
      cases hp
      exact ⟨by decide +kernel, by decide +kernel⟩
    | k + 2 => cases hp
  forward k x z hx hz := by
    match k with
    | 0 => cases hx
    | 1 => cases hz
    | k + 2 => cases hz

/-- A listing of the two pages: `"c"`, which was there all the time, is on it. -/
theorem listing_while_changing_moving : ∃ l s es, Run Sys.Step listSetup.init l s ∧
    (s.procs 0).mode = .ended (some (.ok (.entries es))) ∧
    (requestsOf (messages (s.procs 0).trace)).length = 2 ∧ (es.map ObjectEntry.key).Nodup ∧
    "c" ∈ es.map ObjectEntry.key := by
  obtain ⟨l, s, hr, hrun⟩ := listSetup.observe (fun _ => showing pagedPages) (List.replicate 30 (0, .go))
    (fun s => ((s.procs 0).mode, pagesOf (messages (s.procs 0).trace)))
    (v := (.ended (some (.ok (.entries [⟨"a", 1, none, none⟩, ⟨"c", 2, none, none⟩]))), pagedPages)) rfl
  obtain ⟨hm, hpages⟩ := Prod.mk.inj hrun
  obtain ⟨hlen, hlist⟩ := (listing_while_changing listSetup hr (i := 0) rfl).2 _ hm
  rw [hpages] at hlen hlist
  obtain ⟨hnodup, -, hall⟩ := hlist movingBucket _ moving_scanned
  refine ⟨l, s, _, hr, hm, hlen, hnodup, hall "c" fun k hk => ⟨2, ?_⟩⟩
  match k with
  | 0 => decide
  | 1 => decide
  | k + 2 => exact absurd hk (by simp [pagedPages])

end S3o
