import S3o.System.Advance
import S3o.Wire.Messages

/-!
# The messages of a listing

* `Listed`: the pages that a listing has received, each with the token of the next request;
* `FullListing`, **`list_transcript`**: what `list_objects` says and returns;
* `PageRead`, `AllRead`: the entries that replies should have;
* **`listing_whole_iff`**: the result is whole exactly when every truncated page has a token and every
  common prefix its string;
* **`listing_cut_short`**: a page that says it is truncated and has no token.
-/

namespace S3o

open Async Lts

variable {κ ι : Type}

def S3Client.pageRequest (self : S3Client κ) (pfx : String) (recursive : Bool) (token : Option String) :
    Request :=
  .listObjectsV2 self.config.bucket pfx (if recursive then none else some "/") token

/-- A page says that it is truncated, and where the next one begins. -/
def ListObjectsV2Output.next (resp : ListObjectsV2Output) : Option String :=
  match resp.isTruncated, resp.nextContinuationToken with
  | some true, some t => some t
  | _, _ => none

def Msg.isReply : Msg → Bool
  | .reply .. => true
  | _ => false

section

variable (self : S3Client κ) (pfx : String) (recursive : Bool)

/-- **The pages received so far**, oldest first, with the token of the next request and the messages,
newest first. -/
inductive Listed : List ListObjectsV2Output → Option String → List Msg → Prop
  | nil : Listed [] none []
  | snoc {ps token ms} (resp : ListObjectsV2Output) (t : String) : Listed ps token ms →
      resp.next = some t →
      Listed (ps ++ [resp]) (some t) (.reply (self.pageRequest pfx recursive token) (.ok resp) ::
        .request (self.pageRequest pfx recursive token) :: ms)

/-- What a listing has said, newest first. -/
inductive ListTalk : List Msg → Prop
  | idle {ps token ms} : Listed self pfx recursive ps token ms → ListTalk ms
  | asked {ps token ms} : Listed self pfx recursive ps token ms →
      ListTalk (.request (self.pageRequest pfx recursive token) :: ms)
  | told {ps token ms} (x : Except SdkError ListObjectsV2Output) :
      Listed self pfx recursive ps token ms →
      ListTalk (.reply (self.pageRequest pfx recursive token) x ::
        .request (self.pageRequest pfx recursive token) :: ms)

/-- **What a listing has said when it returns `r`**: nothing when it has lost its acquisition (`L`), and
otherwise its last page is the first that names no other, or an error. -/
inductive FullListing (L : Prop) : List Msg → S3Result (List ObjectEntry) → Prop
  | lost (h : L) : FullListing L [] (.error (Acquire.one.timeoutError Half.read.name))
  | failed {ps token ms} (e : SdkError) : Listed self pfx recursive ps token ms →
      FullListing L (.reply (self.pageRequest pfx recursive token) (.error e) ::
        .request (self.pageRequest pfx recursive token) :: ms) (.error (classify e))
  | done {ps token ms} (resp : ListObjectsV2Output) : Listed self pfx recursive ps token ms →
      resp.next = none →
      FullListing L (.reply (self.pageRequest pfx recursive token) (.ok resp) ::
        .request (self.pageRequest pfx recursive token) :: ms)
        (.ok ((ps ++ [resp]).flatMap self.pageEntries))

/-- What is watched of a listing: its messages, and that each later turn follows a reply. -/
@[reducible] def listWatch : Watch (S3 κ) :=
  ⟨fun τ => ListTalk self pfx recursive (said τ), fun _ => True,
    fun i τ => i ≤ (said τ).countP Msg.isReply⟩

end

section

variable {self : S3Client κ} {pfx : String} {recursive : Bool} {ps : List ListObjectsV2Output}
  {token : Option String} {ms : List Msg} {τ : History (S3 κ)} {r : S3Result (List ObjectEntry)}
  {L : Prop}

theorem Listed.count (h : Listed self pfx recursive ps token ms) : ms.countP Msg.isReply = ps.length := by
  induction h with
  | nil => rfl
  | snoc resp t _ _ ih =>
    rw [List.countP_cons, List.countP_cons, ih, List.length_append]
    rfl

theorem FullListing.mono {L' : Prop} (h : FullListing self pfx recursive L ms r) (hl : L → L') :
    FullListing self pfx recursive L' ms r := by
  cases h with
  | lost h => exact .lost (hl h)
  | failed e h => exact .failed e h
  | done resp h hnext => exact .done resp h hnext

/-! ## The program -/

variable (self pfx recursive) in
/-- What a turn of the loop comes to, after the pages `ps`. -/
def TurnResult (ps : List ListObjectsV2Output) :
    (List ObjectEntry × Option String) ⊕ S3Result (List ObjectEntry) → History (S3 κ) → Prop
  | .inl s, τ => ∃ resp, s.1 = (ps ++ [resp]).flatMap self.pageEntries ∧
      Listed self pfx recursive (ps ++ [resp]) s.2 (said τ)
  | .inr r, τ => FullListing self pfx recursive False (said τ) r

theorem listPage_spec (s : List ObjectEntry × Option String)
    (h : Listed self pfx recursive ps s.2 (said τ)) (hs : s.1 = ps.flatMap self.pageEntries) :
    (self.listPage pfx recursive s).Spec (listWatch self pfx recursive)
      (TurnResult self pfx recursive ps) τ := by
  unfold S3Client.listPage
  rw [Leaf.bind_eq, Leaf.spec_bind, Leaf.spec_send]
  simp only [said_requested, said_replied]
  refine ⟨.idle h, fun u n => ⟨.asked h, trivial, fun v x => ⟨.told x h, ?_⟩⟩⟩
  have hentries : ∀ resp, s.1 ++ self.pageEntries resp = (ps ++ [resp]).flatMap self.pageEntries := by
    intro resp
    rw [List.flatMap_append, List.flatMap_singleton, hs]
  have hdone : ∀ resp : ListObjectsV2Output, resp.next = none → FullListing self pfx recursive False
      (.reply (self.pageRequest pfx recursive s.2) (.ok resp) ::
        .request (self.pageRequest pfx recursive s.2) :: said τ)
      (.ok (s.1 ++ self.pageEntries resp)) := by
    intro resp hnext
    rw [hentries]
    exact .done resp h hnext
  match x with
  | .error e => exact (Leaf.spec_ret _).mpr ⟨.told (.error e) h, .failed e h⟩
  | .ok ⟨c, p, some true, some t⟩ =>
    exact (Leaf.spec_ret _).mpr ⟨.told (.ok _) h, _, hentries _, .snoc _ t h rfl⟩
  | .ok ⟨c, p, some true, none⟩ => exact (Leaf.spec_ret _).mpr ⟨.told (.ok _) h, hdone _ rfl⟩
  | .ok ⟨c, p, some false, t⟩ => exact (Leaf.spec_ret _).mpr ⟨.told (.ok _) h, hdone _ rfl⟩
  | .ok ⟨c, p, none, t⟩ => exact (Leaf.spec_ret _).mpr ⟨.told (.ok _) h, hdone _ rfl⟩

theorem paginatedList_spec (hτ : said τ = []) :
    (self.paginatedList pfx recursive).Spec (listWatch self pfx recursive)
      (fun r τ' => FullListing self pfx recursive False (said τ') r) τ := by
  refine Prog.spec_repeat (fun i s τ' => ∃ ps, Listed self pfx recursive ps s.2 (said τ') ∧
    s.1 = ps.flatMap self.pageEntries ∧ ps.length = i) ?_ ⟨[], hτ ▸ .nil, rfl, rfl⟩
  rintro i s τ' ⟨ps, hps, hs, rfl⟩
  refine ⟨fun _ new => ?_, ?_⟩
  · dsimp only
    rw [said_append, List.countP_append, hps.count]
    exact Nat.le_add_left _ _
  · refine (listPage_spec s hps hs).weaken fun x τ'' _ h => ?_
    cases x with
    | inl s' =>
      obtain ⟨resp, hs', hps'⟩ := h
      exact ⟨ps ++ [resp], hps', hs', by rw [List.length_append]; rfl⟩
    | inr r => exact h

theorem list_transcript : ((Op.list pfx recursive).program self).Spec (listWatch self pfx recursive)
    (fun r τ => ∃ r' : S3Result (List ObjectEntry), r = r'.map .entries ∧ FullListing self pfx recursive
      (.lost (self.pool, .read) .one ∈ τ.events) (said τ) r') [] := by
  unfold Op.program S3Client.listObjects
  simp only [Prog.bind_eq, Prog.pure_eq, Prog.spec_bind, Prog.spec_ret, spec_startOp, spec_guarded,
    said_nil, said_read, said_emit, said_want, said_got, said_lost]
  have hidle : ListTalk self pfx recursive [] := .idle .nil
  refine ⟨hidle, fun t => ⟨hidle, fun u => ⟨hidle, hidle, fun s => ⟨hidle, trivial, fun t' =>
    ⟨hidle, fun u' => ?_⟩, fun t' => ⟨hidle, hidle, _, rfl, .lost (by simp [History.events])⟩⟩⟩⟩⟩
  refine Prog.Spec.weaken (paginatedList_spec rfl) fun r τ halways h => ?_
  refine finish_spec r (fun τ' hsaid => ?_) fun τ' hsaid _ => ?_
  · dsimp only
    rw [hsaid]
    exact halways
  · simp only [said_freed, hsaid]
    exact ⟨halways, halways, fun _ => ⟨halways, halways, r, rfl, h.mono False.elim⟩⟩

end

/-! ## Whole listings -/

/-- The pages among the messages, oldest first. -/
def pagesOf (ms : List Msg) : List ListObjectsV2Output :=
  (ms.filterMap fun
    | .reply (.listObjectsV2 ..) (.ok resp) => some resp
    | _ => none).reverse

/-- The entry of an object of a reply. -/
structure EntryOf (chrono : Timestamp → Option Timestamp) (o : ListedObject) (e : ObjectEntry) : Prop where
  key : e.key = o.key.getD ""
  size : e.size = asU64 (o.size.getD 0)
  etag : e.etag = o.eTag
  lastModified : e.lastModified = o.lastModified.bind chrono

/-- The entry of a common prefix of a reply. -/
structure FolderOf (c : CommonPrefix) (e : ObjectEntry) : Prop where
  key : c.pfx = some e.key
  size : e.size = 0
  etag : e.etag = none
  lastModified : e.lastModified = none

/-- **The entries of a reply**: one for each of its objects, and then one for each of its common prefixes,
in its order. -/
def PageRead (chrono : Timestamp → Option Timestamp) (p : ListObjectsV2Output) (es : List ObjectEntry) :
    Prop :=
  ∃ objects folders, es = objects ++ folders ∧
    List.Forall₂ (EntryOf chrono) (p.contents.getD []) objects ∧
    List.Forall₂ FolderOf (p.commonPrefixes.getD []) folders

/-- **The entries of all replies**, in their order. -/
def AllRead (chrono : Timestamp → Option Timestamp) (pages : List ListObjectsV2Output)
    (es : List ObjectEntry) : Prop :=
  ∃ parts, List.Forall₂ (PageRead chrono) pages parts ∧ es = parts.flatten

/-- Every common prefix of a reply has its string. -/
def Prefixed (p : ListObjectsV2Output) : Prop := ∀ c ∈ p.commonPrefixes.getD [], ∃ k, c.pfx = some k

section

variable {self : S3Client κ} {pfx : String} {recursive : Bool} {ps : List ListObjectsV2Output}
  {token : Option String} {ms : List Msg} {L : Prop}

theorem pagesOf_reply (resp : ListObjectsV2Output) :
    pagesOf (.reply (self.pageRequest pfx recursive token) (.ok resp) ::
      .request (self.pageRequest pfx recursive token) :: ms) = pagesOf ms ++ [resp] := by
  show (resp :: _).reverse = _
  rw [List.reverse_cons]
  rfl

theorem Listed.pages (h : Listed self pfx recursive ps token ms) : pagesOf ms = ps := by
  induction h with
  | nil => rfl
  | snoc resp t _ _ ih => rw [pagesOf_reply, ih]

theorem Listed.next (h : Listed self pfx recursive ps token ms) : ∀ p ∈ ps, ∃ t, p.next = some t := by
  induction h with
  | nil => exact nofun
  | snoc resp t _ hnext ih =>
    intro p hp
    rcases List.mem_append.mp hp with hp | hp
    · exact ih p hp
    · obtain rfl := List.mem_singleton.mp hp
      exact ⟨t, hnext⟩

/-- **The pages of a listing that succeeds**, and its result. -/
theorem FullListing.pages {es : List ObjectEntry} (h : FullListing self pfx recursive L ms (.ok es)) :
    ∃ ps resp, (∀ p ∈ ps, ∃ t, p.next = some t) ∧ resp.next = none ∧
      (ps ++ [resp]).flatMap self.pageEntries = es ∧ pagesOf ms = ps ++ [resp] := by
  cases h with
  | @done ps token ms resp h hnext =>
    exact ⟨ps, resp, h.next, hnext, rfl, by rw [pagesOf_reply, h.pages]⟩

/-- A page names the next one exactly when it is truncated and has a token. -/
theorem ListObjectsV2Output.next_eq_some {p : ListObjectsV2Output} {t : String} :
    p.next = some t ↔ p.isTruncated = some true ∧ p.nextContinuationToken = some t := by
  obtain ⟨c, q, truncated, token⟩ := p
  match truncated, token with
  | some true, some t' => simp [ListObjectsV2Output.next]
  | some true, none => simp [ListObjectsV2Output.next]
  | some false, _ => simp [ListObjectsV2Output.next]
  | none, _ => simp [ListObjectsV2Output.next]

theorem forall₂_graph {α β : Type} {R : α → β → Prop} {P : α → Prop} {g : α → β}
    (hR : ∀ a b, R a b ↔ P a ∧ g a = b) {l : List α} {u : List β} :
    List.Forall₂ R l u ↔ (∀ a ∈ l, P a) ∧ l.map g = u := by
  obtain rfl : R = fun a b => P a ∧ g a = b := funext₂ fun a b => propext (hR a b)
  rw [List.forall₂_and_left, ← List.forall₂_eq_eq_eq, List.forall₂_map_left_iff]

theorem entryOf_iff (chrono : Timestamp → Option Timestamp) (o : ListedObject) (e : ObjectEntry) :
    EntryOf chrono o e ↔ True ∧
      ⟨o.key.getD "", asU64 (o.size.getD 0), o.eTag, o.lastModified.bind chrono⟩ = e := by
  obtain ⟨key, size, etag, modified⟩ := e
  constructor
  · rintro ⟨rfl, rfl, rfl, rfl⟩
    exact ⟨trivial, rfl⟩
  · rintro ⟨-, heq⟩
    cases heq
    exact ⟨rfl, rfl, rfl, rfl⟩

theorem folderOf_iff (c : CommonPrefix) (e : ObjectEntry) :
    FolderOf c e ↔ (∃ k, c.pfx = some k) ∧ ⟨c.pfx.getD "", 0, none, none⟩ = e := by
  obtain ⟨key, size, etag, modified⟩ := e
  constructor
  · rintro ⟨hkey, rfl, rfl, rfl⟩
    exact ⟨⟨key, hkey⟩, by rw [hkey, Option.getD_some]⟩
  · rintro ⟨⟨k, hk⟩, heq⟩
    rw [hk, Option.getD_some] at heq
    cases heq
    exact ⟨hk, rfl, rfl, rfl⟩

variable (self) in
/-- **What the code makes of a page** is its entries exactly when every common prefix has its string. -/
theorem pageRead_iff (p : ListObjectsV2Output) (es : List ObjectEntry) :
    PageRead self.chrono p es ↔ Prefixed p ∧ self.pageEntries p = es := by
  have hfolders : Prefixed p → (p.commonPrefixes.getD []).map (fun c => ⟨c.pfx.getD "", 0, none, none⟩) =
      (p.commonPrefixes.getD []).filterMap fun c =>
        c.pfx.map fun k => (⟨k, 0, none, none⟩ : ObjectEntry) := by
    intro hp
    rw [← List.filterMap_eq_map]
    refine List.filterMap_congr fun c hc => ?_
    obtain ⟨k, hk⟩ := hp c hc
    rw [Function.comp_apply, hk]
    rfl
  constructor
  · rintro ⟨objects, folders, rfl, hobjects, hf⟩
    obtain ⟨-, rfl⟩ := (forall₂_graph (entryOf_iff self.chrono)).mp hobjects
    obtain ⟨hp, rfl⟩ := (forall₂_graph folderOf_iff).mp hf
    exact ⟨hp, congrArg (_ ++ ·) (hfolders hp).symm⟩
  · rintro ⟨hp, rfl⟩
    exact ⟨_, _, rfl, (forall₂_graph (entryOf_iff self.chrono)).mpr ⟨fun _ _ => trivial, rfl⟩,
      (forall₂_graph folderOf_iff).mpr ⟨hp, hfolders hp⟩⟩

variable (self) in
theorem allRead_iff {pages : List ListObjectsV2Output} {es : List ObjectEntry} :
    AllRead self.chrono pages es ↔ (∀ p ∈ pages, Prefixed p) ∧ pages.flatMap self.pageEntries = es := by
  constructor
  · rintro ⟨parts, hparts, rfl⟩
    obtain ⟨hp, rfl⟩ := (forall₂_graph (pageRead_iff self)).mp hparts
    exact ⟨hp, List.flatMap_def⟩
  · rintro ⟨hp, rfl⟩
    exact ⟨_, (forall₂_graph (pageRead_iff self)).mpr ⟨hp, rfl⟩, List.flatMap_def⟩

end

/-! ## Pages and tokens -/

/-- The token of the request for page `k`. -/
def tokenOf (pages : List ListObjectsV2Output) : ℕ → Option String
  | 0 => none
  | k + 1 => pages[k]?.bind ListObjectsV2Output.nextContinuationToken

theorem tokenOf_succ (pages : List ListObjectsV2Output) (k : ℕ) :
    tokenOf pages (k + 1) = pages[k]?.bind ListObjectsV2Output.nextContinuationToken := rfl

/-- The page after a token. -/
def pageAfter (pages : List ListObjectsV2Output) (token : Option String) : Option ListObjectsV2Output :=
  ((List.range pages.length).find? fun k => tokenOf pages k = token).bind (pages[·]?)

/-- Answers with these pages. -/
def showing (pages : List ListObjectsV2Output) : ∀ q, (S3 κ).Ans q
  | .http (.listObjectsV2 _ _ _ token) =>
    ((pageAfter pages token).map .ok).getD (.error (.other "no page"))
  | .http _ => .error (.other "no reply")
  | .collect b => .ok b

/-! ## Every listing that succeeds -/

section

variable [DecidableEq κ] [DecidableEq ι]

/-- **Whole listings.** A listing that succeeds ends with a page that is not truncated, and has an entry
for every object and every common prefix of every page, in their order, exactly when every page that says
it is truncated has a token and every common prefix has its string. -/
theorem listing_whole_iff (S : Setup κ ι) {s : Sys κ ι} {l : List ((ι × Act κ) × Sys κ ι)}
    (hr : Run Sys.Step S.init l s) {i : ι} {pfx : String} {recursive : Bool}
    (hop : S.op i = .list pfx recursive) {es : List ObjectEntry}
    (hm : (s.procs i).mode = .ended (some (.ok (.entries es)))) :
    let pages := pagesOf (messages (s.procs i).trace)
    ((∃ last, pages.getLast? = some last ∧ last.isTruncated ≠ some true) ∧ AllRead S.chrono pages es) ↔
      (∀ p ∈ pages, p.isTruncated = some true → ∃ t, p.nextContinuationToken = some t) ∧
        ∀ p ∈ pages, Prefixed p := by
  intro pages
  obtain ⟨τ, hτ⟩ := follows_run hr i
  rw [hop] at hτ
  have hpages : pages = pagesOf (said τ) := by
    show pagesOf (messages (s.procs i).trace) = pagesOf (said τ)
    rw [hτ.trace, messages_events]
  obtain ⟨r, hres, hfull⟩ := hτ.reached.returned list_transcript hm
  cases r with
  | error e => cases hres
  | ok es' =>
    cases hres
    obtain ⟨ps, resp, hps, hnext, hes, heq⟩ := hfull.pages
    have hread : AllRead S.chrono pages es ↔ ∀ p ∈ pages, Prefixed p := by
      rw [hpages, heq]
      exact (allRead_iff (S.client i)).trans (and_iff_left hes)
    rw [hread]
    refine and_congr_left fun _ => ?_
    rw [hpages, heq]
    constructor
    · rintro ⟨last, hlast, htrunc⟩ p hp ht
      rw [List.getLast?_concat] at hlast
      cases hlast
      rcases List.mem_append.mp hp with hp | hp
      · obtain ⟨t, hpt⟩ := hps p hp
        exact ⟨t, (ListObjectsV2Output.next_eq_some.mp hpt).2⟩
      · obtain rfl := List.mem_singleton.mp hp
        exact absurd ht htrunc
    · intro hall
      refine ⟨resp, List.getLast?_concat, fun ht => ?_⟩
      obtain ⟨t, htoken⟩ := hall resp (by simp) ht
      rw [ListObjectsV2Output.next_eq_some.mpr ⟨ht, htoken⟩] at hnext
      cases hnext

def listSetup : Setup Unit (Fin 1) := smallSetup fun _ => .list "" true

/-- An object on the first page, a folder and an object on the second. -/
def repliedPages : List ListObjectsV2Output :=
  [⟨some [⟨some "a", some 1, none, none⟩], none, some true, some "next"⟩,
    ⟨some [⟨some "c", some 2, none, none⟩], some [⟨some "b/"⟩], some false, none⟩]

/-- A listing of two pages. -/
theorem listing_whole_replied : ∃ l s, Run Sys.Step listSetup.init l s ∧
    (s.procs 0).mode =
      .ended (some (.ok (.entries [⟨"a", 1, none, none⟩, ⟨"c", 2, none, none⟩, ⟨"b/", 0, none, none⟩]))) ∧
    AllRead listSetup.chrono (pagesOf (messages (s.procs 0).trace))
      [⟨"a", 1, none, none⟩, ⟨"c", 2, none, none⟩, ⟨"b/", 0, none, none⟩] := by
  obtain ⟨l, s, hr, hrun⟩ := listSetup.observe (fun _ => showing repliedPages) (List.replicate 30 (0, .go))
    (fun s => ((s.procs 0).mode, pagesOf (messages (s.procs 0).trace)))
    (v := (.ended (some (.ok (.entries
      [⟨"a", 1, none, none⟩, ⟨"c", 2, none, none⟩, ⟨"b/", 0, none, none⟩]))), repliedPages)) rfl
  obtain ⟨hm, hpages⟩ := Prod.mk.inj hrun
  refine ⟨l, s, hr, hm, ((listing_whole_iff listSetup hr (i := 0) rfl hm).mpr ?_).2⟩
  rw [hpages]
  refine ⟨fun p hp ht => ?_, fun p hp c hc => ?_⟩
  · rcases List.mem_cons.mp hp with rfl | hp
    · exact ⟨"next", rfl⟩
    · obtain rfl := List.mem_singleton.mp hp
      cases ht
  · rcases List.mem_cons.mp hp with rfl | hp
    · cases hc
    · obtain rfl := List.mem_singleton.mp hp
      obtain rfl := List.mem_singleton.mp hc
      exact ⟨"b/", rfl⟩

/-- **A listing cut short**: the call succeeds with the entries of a page that says there are more. -/
theorem listing_cut_short : ∃ l s, Run Sys.Step listSetup.init l s ∧
    (s.procs 0).mode = .ended (some (.ok (.entries [⟨"a", 1, none, none⟩]))) ∧
    ∃ p, pagesOf (messages (s.procs 0).trace) = [p] ∧ p.isTruncated = some true := by
  obtain ⟨l, s, hr, hrun⟩ := listSetup.observe
    (fun _ => showing [⟨some [⟨some "a", some 1, none, none⟩], none, some true, none⟩])
    (List.replicate 27 (0, .go))
    (fun s => ((s.procs 0).mode, pagesOf (messages (s.procs 0).trace)))
    (v := (.ended (some (.ok (.entries [⟨"a", 1, none, none⟩]))),
      [⟨some [⟨some "a", some 1, none, none⟩], none, some true, none⟩])) rfl
  obtain ⟨hm, hpages⟩ := Prod.mk.inj hrun
  exact ⟨l, s, hr, hm, _, hpages, rfl⟩

end

end S3o
