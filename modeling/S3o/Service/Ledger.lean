import S3o.Pieces
import S3o.System.Watch

/-!
# What a call may send, and what its result stands for

A call remembers its events. It sends writes only for the object and the body it was given, it sends
parts and manifests only under an upload id it was answered with, and it returns a success only on the
strength of the replies that make it one.

* `Honest`, `ledger`: what a call may send;
* `Stored`, `Fetched`, `Failed`, `Op.Result`: what its result stands for;
* **`op_ledger`**: the five operations;
* **`honest_run`**: every call, in every run.
-/

namespace S3o

open Async Lts

variable {κ : Type}

/-- The service has answered with the upload id `uid`. -/
def Known (past : Set (Ev (S3 κ))) (bucket key uid : String) : Prop :=
  ∃ n, replied n (.createMultipartUpload bucket key) (.ok ⟨some uid⟩) ∈ past

/-- **What a call may send.** -/
def Honest (self : S3Client κ) (op : Op) (past : Set (Ev (S3 κ))) : Request → Prop
  | .putObject bucket key d _ =>
    ∃ body, op = .put key body ∧ bucket = self.config.bucket ∧ d = body.data
  | .getObject bucket key _ => op = .get key ∧ bucket = self.config.bucket
  | .headObject bucket key => (op = .get key ∨ op = .head key) ∧ bucket = self.config.bucket
  | .deleteObject bucket key => op = .delete key ∧ bucket = self.config.bucket
  | .listObjectsV2 bucket pfx _ _ => ∃ recursive, op = .list pfx recursive ∧ bucket = self.config.bucket
  | .createMultipartUpload bucket key => ∃ body, op = .put key body ∧ bucket = self.config.bucket
  | .uploadPart bucket key uid pn d _ =>
    ∃ body, op = .put key body ∧ bucket = self.config.bucket ∧ Known past bucket key uid ∧
      (pn, d) ∈ self.chunks body.data
  | .completeMultipartUpload bucket key uid parts =>
    ∃ body, op = .put key body ∧ bucket = self.config.bucket ∧ Known past bucket key uid ∧
      (parts.map CompletedPart.partNumber).Perm ((self.chunks body.data).map Prod.fst)
  | .abortMultipartUpload bucket key uid =>
    ∃ body, op = .put key body ∧ bucket = self.config.bucket ∧ Known past bucket key uid

/-- What an event has to satisfy: requests are honest, and answers are to questions. -/
def HonestEvent (self : S3Client κ) (op : Op) (past : Set (Ev (S3 κ))) : Ev (S3 κ) → Prop
  | .sent _ (Await.http r) => Honest self op past r
  | .answered n q _ => .sent n q ∈ past
  | _ => True

theorem Known.mono {past past' : Set (Ev (S3 κ))} (h : past ⊆ past') {bucket key uid : String} :
    Known past bucket key uid → Known past' bucket key uid := fun ⟨n, hn⟩ => ⟨n, h hn⟩

theorem HonestEvent.mono {self : S3Client κ} {op : Op} {past past' : Set (Ev (S3 κ))} {e : Ev (S3 κ)}
    (h : past ⊆ past') (he : HonestEvent self op past e) : HonestEvent self op past' e := by
  unfold HonestEvent at he ⊢
  split at he
  · rename_i r
    cases r with
    | uploadPart bucket key uid pn d c =>
      obtain ⟨body, hop, hb, hk, hc⟩ := he
      exact ⟨body, hop, hb, hk.mono h, hc⟩
    | completeMultipartUpload bucket key uid parts =>
      obtain ⟨body, hop, hb, hk, hp⟩ := he
      exact ⟨body, hop, hb, hk.mono h, hp⟩
    | abortMultipartUpload bucket key uid =>
      obtain ⟨body, hop, hb, hk⟩ := he
      exact ⟨body, hop, hb, hk.mono h⟩
    | _ => exact he
  · exact h he
  · trivial

/-- The monitor of honest calls. -/
abbrev ledger (self : S3Client κ) (op : Op) : Monitor (S3 κ) :=
  .memory (HonestEvent self op) HonestEvent.mono

/-- A `PutObject` or a `CompleteMultipartUpload` of the object has succeeded. -/
def Stored (self : S3Client κ) (key : String) (body : Body) (past : Set (Ev (S3 κ))) : Prop :=
  (∃ n c, replied n (.putObject self.config.bucket key body.data c) (.ok ()) ∈ past) ∨
    ∃ n uid parts, replied n (.completeMultipartUpload self.config.bucket key uid parts) (.ok ()) ∈ past

/-- A GET of the object has succeeded, and `d` is what its body was read to. -/
def Got (past : Set (Ev (S3 κ))) (bucket key : String) (range : Option ByteRange) (d : Bytes) : Prop :=
  ∃ n n' out, replied n (.getObject bucket key range) (.ok out) ∈ past ∧
    collected n' out.body (.ok d) ∈ past

/-- The range of the `i`-th request of a download. -/
def rangeOf (size total i : ℕ) : ByteRange := ⟨(interval size total i).1, (interval size total i).2 - 1⟩

/-- `d` was read by one GET, or by GETs of all the ranges of the length that a HEAD has reported. -/
def Fetched (self : S3Client κ) (key : String) (past : Set (Ev (S3 κ))) (d : Bytes) : Prop :=
  Got past self.config.bucket key none d ∨
  ∃ n out, replied n (.headObject self.config.bucket key) (.ok out) ∈ past ∧
    self.config.multipartThreshold.toNat < asU64 (out.contentLength.getD 0) ∧
    ∃ ps : List (ℕ × Bytes),
      ps.map Prod.fst = List.range
        (divCeil (asU64 (out.contentLength.getD 0)) self.config.chunkSize.toNat) ∧
      d = (ps.map Prod.snd).flatten ∧ ∀ x ∈ ps, Got past self.config.bucket key (some
        (rangeOf self.config.chunkSize.toNat (asU64 (out.contentLength.getD 0)) x.1)) x.2

/-- **What a result stands for.** -/
def Op.Result (self : S3Client κ) (op : Op) (past : Set (Ev (S3 κ))) (r : S3Result Value) : Prop :=
  match op, r with
  | .put key body, .ok _ => Stored self key body past
  | .get key, .ok v => ∃ d, v = .data d ∧ Fetched self key past d
  | .get _, .error _ => Failed past
  | _, _ => True

section

variable {past past' : Set (Ev (S3 κ))}

theorem Failed.mono (h : past ⊆ past') : Failed past → Failed past' := by
  rintro (⟨s, a, hm⟩ | ⟨n, r, e, hm⟩ | ⟨n, b, e, hm⟩)
  · exact Or.inl ⟨s, a, h hm⟩
  · exact Or.inr (Or.inl ⟨n, r, e, h hm⟩)
  · exact Or.inr (Or.inr ⟨n, b, e, h hm⟩)

theorem Got.mono (h : past ⊆ past') {bucket key : String} {range : Option ByteRange} {d : Bytes} :
    Got past bucket key range d → Got past' bucket key range d :=
  fun ⟨n, n', out, h₁, h₂⟩ => ⟨n, n', out, h h₁, h h₂⟩

theorem Stored.mono (h : past ⊆ past') {self : S3Client κ} {key : String} {body : Body} :
    Stored self key body past → Stored self key body past' := by
  rintro (⟨n, c, hm⟩ | ⟨n, uid, parts, hm⟩)
  · exact Or.inl ⟨n, c, h hm⟩
  · exact Or.inr ⟨n, uid, parts, h hm⟩

theorem Fetched.mono (h : past ⊆ past') {self : S3Client κ} {key : String} {d : Bytes} :
    Fetched self key past d → Fetched self key past' d := by
  rintro (hg | ⟨n, out, hm, hlt, ps, hfst, hd, hps⟩)
  · exact Or.inl (hg.mono h)
  · exact Or.inr ⟨n, out, h hm, hlt, ps, hfst, hd, fun x hx => (hps x hx).mono h⟩

theorem Op.Result.mono (h : past ⊆ past') {self : S3Client κ} {op : Op} {r : S3Result Value}
    (hr : op.Result self past r) : op.Result self past' r := by
  unfold Op.Result at hr ⊢
  split at hr
  · exact hr.mono h
  · obtain ⟨d, hv, hd⟩ := hr
    exact ⟨d, hv, hd.mono h⟩
  · exact hr.mono h
  · trivial

end

/-! ## Statements -/

section

variable {self : S3Client κ} {op : Op} {g : Set (Ev (S3 κ))} {α : Type}

theorem ledger_fine {e : Ev (S3 κ)} (h : HonestEvent self op g e) : (ledger self op).Fine g e :=
  ⟨h, Set.subset_insert _ _⟩

theorem ledger_solo {e : Ev (S3 κ)} (h : HonestEvent self op g e) : (ledger self op).Solo g e :=
  ⟨h, trivial⟩

theorem Leaf.send_ledger {A : Set (Ev (S3 κ)) → Ev (S3 κ) → Prop} {r : Request}
    {ψ : Set (Ev (S3 κ)) → S3Result r.Output → Prop}
    (hA : ∀ g e, HonestEvent self op g e → A g e) (hr : Honest self op g r)
    (h : ∀ n (x : Except SdkError r.Output),
      ψ (insert (replied n r x) (insert (requested n r) g)) (x.mapError classify)) :
    Leaf.Safe (ledger self op) A ψ (Leaf.send r) g := by
  refine (Leaf.safe_send (M := ledger self op) (A := A) (g := g) r ψ).mpr ⟨trivial, fun n => ?_⟩
  refine ⟨hA g (requested n r) hr, trivial, fun x => ⟨?_, h n x⟩⟩
  exact hA (insert (requested n r) g) (replied n r x) (Set.mem_insert _ _)

theorem Leaf.collect_ledger {A : Set (Ev (S3 κ)) → Ev (S3 κ) → Prop} {b : Bytes} {label : String}
    {ψ : Set (Ev (S3 κ)) → S3Result Bytes → Prop}
    (hA : ∀ g e, HonestEvent self op g e → A g e)
    (h : ∀ n (x : Except String Bytes),
      ψ (insert (collected n b x) (insert (.sent (S := S3 κ) n (Await.collect b)) g))
        (x.mapError fun e => .backend .other s!"{label}: {e}")) :
    (Leaf.collect b label : Leaf (S3 κ) _).Safe (ledger self op) A ψ g := by
  refine (Leaf.safe_collect (M := ledger self op) (A := A) (g := g) b label ψ).mpr
    ⟨trivial, fun n => ?_⟩
  refine ⟨hA g (.sent (S := S3 κ) n (Await.collect b)) trivial, trivial, fun x => ⟨?_, h n x⟩⟩
  exact hA (insert (.sent (S := S3 κ) n (Await.collect b)) g) (collected n b x) (Set.mem_insert _ _)

theorem send_ledger {r : Request} {ψ : Set (Ev (S3 κ)) → S3Result r.Output → Prop}
    (hr : Honest self op g r)
    (h : ∀ n (x : Except SdkError r.Output),
      ψ (insert (replied n r x) (insert (requested n r) g)) (x.mapError classify)) :
    (send r : Prog (S3 κ) _).Safe (ledger self op) ψ g :=
  (safe_send (M := ledger self op) (g := g) r ψ).mpr
    ⟨trivial, Leaf.send_ledger (fun _ _ => ledger_solo) hr h⟩

theorem guarded_ledger {h : Half} {a : Acquire} {rest : Prog (S3 κ) (S3Result α)}
    {ψ : Set (Ev (S3 κ)) → S3Result α → Prop}
    (hmono : ∀ g g' r, g ⊆ g' → ψ g r → ψ g' r)
    (hr : ∀ g' : Set (Ev (S3 κ)), g ⊆ g' → rest.Safe (ledger self op) ψ g')
    (hlost : ∀ e, ψ (insert (.lost (self.pool, h) a) (insert (.want (self.pool, h) a) g)) (.error e)) :
    (self.guarded h a rest).Safe (ledger self op) ψ g := by
  rw [safe_guarded]
  refine ⟨trivial, trivial, fun d => ⟨trivial, trivial, ?_⟩, trivial, hlost _⟩
  refine Prog.safe_weaken (fun g' r hg => ⟨trivial, hmono _ _ _ (Set.subset_insert _ _) hg⟩) _ _ (hr _ ?_)
  exact ((Set.subset_insert _ _).trans (Set.subset_insert _ _)).trans (Set.subset_insert _ _)

theorem finish_ledger {ψ : Set (Ev (S3 κ)) → Unit → Prop} (r : S3Result α)
    (h : ∀ g' : Set (Ev (S3 κ)), g ⊆ g' → ψ g' ()) :
    (finish r : Prog (S3 κ) _).Safe (ledger self op) ψ g := by
  refine safe_finish (M := ledger self op) (g := g) r ψ ?_ ?_
  · exact fun _ _ _ _ => ⟨trivial, h _ (Set.subset_insert _ _)⟩
  · exact fun _ _ _ => ⟨trivial, h _ (Set.subset_insert _ _)⟩

end

/-! ## Uploads -/

/-- What the result of an upload stands for. -/
def Kept (self : S3Client κ) (key : String) (body : Body) {α : Type} (past : Set (Ev (S3 κ)))
    (r : S3Result α) : Prop := ∀ v, r = .ok v → Stored self key body past

theorem collectParts_numbers {rs : List (ℕ × S3Result CompletedPart)} {parts : List CompletedPart}
    (h : S3Client.collectParts (rs.map Prod.snd) = (parts, none))
    (hrs : ∀ x ∈ rs, ∀ p, x.2 = .ok p → p.partNumber = asI32 (x.1 + 1)) :
    parts.map CompletedPart.partNumber = rs.map fun x => asI32 (x.1 + 1) := by
  rw [collectParts_eq] at h
  obtain ⟨hvalues, hnone⟩ := Prod.mk.inj h
  have hok := hvalues ▸ (Results.map_values hnone).symm
  clear h hvalues hnone
  induction rs generalizing parts with
  | nil =>
    cases parts with
    | nil => rfl
    | cons p parts => cases hok
  | cons x rs ih =>
    cases parts with
    | nil => cases hok
    | cons p parts =>
      obtain ⟨hx, hrest⟩ := List.cons.inj hok
      rw [List.map_cons, List.map_cons, hrs x List.mem_cons_self p hx,
        ih (fun y hy => hrs y (List.mem_cons_of_mem _ hy)) hrest]

section

variable {self : S3Client κ} {key : String} {body : Body} {g : Set (Ev (S3 κ))}

theorem Kept.mono {α : Type} (g g' : Set (Ev (S3 κ))) (r : S3Result α) (h : g ⊆ g')
    (hr : Kept self key body g r) : Kept self key body g' r := fun v hv => (hr v hv).mono h

theorem Kept.error {α : Type} (e : S3Error) : Kept self key body g (.error e : S3Result α) :=
  fun _ hv => nomatch hv

theorem simplePut_ledger :
    (self.simplePut key body.data).Safe (ledger self (.put key body)) (Kept self key body) g := by
  refine guarded_ledger Kept.mono (fun g' _ => ?_) fun e => Kept.error e
  simp only [Prog.bind_eq, Prog.pure_eq, Prog.safe_bind, Prog.safe_ret, Prog.safe_clock, Prog.safe_log]
  refine fun t => send_ledger ⟨body, rfl, rfl, rfl⟩ fun n x t' => ⟨trivial, trivial, ?_⟩
  cases x with
  | error e => exact Kept.error _
  | ok v => exact fun _ _ => Or.inl ⟨n, self.checksum, by simp⟩

theorem uploadPart_ledger {uid : String} {pn : ℤ} {chunk : Bytes}
    (hk : Known g self.config.bucket key uid) (hc : (pn, chunk) ∈ self.chunks body.data) :
    (self.uploadPart key uid pn chunk).Safe (ledger self (.put key body))
      (ledger self (.put key body)).Fine (fun _ r => ∀ p, r = .ok p → p.partNumber = pn) g := by
  unfold S3Client.uploadPart
  simp only [Leaf.bind_eq, Leaf.pure_eq, Leaf.safe_bind, Leaf.safe_clock, Leaf.safe_log, Leaf.safe_ret]
  intro t
  refine Leaf.send_ledger (fun _ _ => ledger_fine) ⟨body, rfl, rfl, hk, hc⟩ fun n x t' => ?_
  refine ⟨ledger_fine trivial, ledger_fine trivial, fun p hp => ?_⟩
  cases x with
  | error e => cases hp
  | ok out =>
    obtain ⟨eTag⟩ := out
    cases eTag with
    | none => cases hp
    | some etag =>
      obtain rfl := Except.ok.inj hp
      rfl

theorem chunks_getElem? {j : ℕ} {c : ℤ × Bytes} (h : (self.chunks body.data)[j]? = some c) :
    c.1 = asI32 (j + 1) := by
  unfold S3Client.chunks at h
  dsimp only at h
  rw [List.getElem?_map] at h
  obtain ⟨i, hi, rfl⟩ := Option.map_eq_some_iff.mp h
  obtain ⟨hj, hget⟩ := List.getElem?_eq_some_iff.mp hi
  rw [List.getElem_range] at hget
  rw [hget]

theorem manifest_perm {rs : List (ℕ × S3Result CompletedPart)} {parts : List CompletedPart}
    (h : S3Client.collectParts (rs.map Prod.snd) = (parts, none))
    (hperm : (rs.map Prod.fst).Perm (List.range (self.chunks body.data).length))
    (hrs : ∀ x ∈ rs, ∀ p, x.2 = .ok p → p.partNumber = asI32 (x.1 + 1)) :
    ((S3Client.sortParts parts).map CompletedPart.partNumber).Perm
      ((self.chunks body.data).map Prod.fst) := by
  have hlen : (self.chunks body.data).length =
      divCeil body.data.length self.config.chunkSize.toNat := by simp [S3Client.chunks]
  have hnum : parts.map CompletedPart.partNumber =
      (rs.map Prod.fst).map fun i => asI32 (i + 1) := by
    rw [collectParts_numbers h hrs, List.map_map, Function.comp_def]
  refine ((List.perm_insertionSort _ parts).map _).trans ?_
  rw [hnum, chunks_fst, ← hlen]
  exact hperm.map _

/-- **`multipart_put`.** -/
theorem multipartPut_ledger :
    (self.multipartPut key body.data).Safe (ledger self (.put key body)) (Kept self key body) g := by
  refine guarded_ledger Kept.mono (fun g' _ => ?_) fun e => Kept.error e
  simp only [Prog.bind_eq, Prog.pure_eq, Prog.safe_bind]
  refine send_ledger ⟨body, rfl, rfl⟩ fun n x => ?_
  cases x with
  | error e => exact Kept.error _
  | ok out =>
    obtain ⟨uploadId⟩ := out
    cases uploadId with
    | none => exact Kept.error _
    | some uid =>
      generalize hg₁ : insert _ (insert _ g') = g₁
      have hk : Known g₁ self.config.bucket key uid := ⟨n, by simp [← hg₁]⟩
      show Prog.Safe (ledger self (.put key body)) (Kept self key body) (Prog.bind _ _) g₁
      rw [Prog.safe_bind]
      refine Prog.safe_bufferUnordered trivial
        (fun j _ r => ∀ p, r = .ok p → p.partNumber = asI32 (j + 1)) (fun _ _ _ _ _ h => h) ?_ ?_
      · intro j l hl
        rw [List.getElem?_map] at hl
        obtain ⟨c, hc, rfl⟩ := Option.map_eq_some_iff.mp hl
        rw [← chunks_getElem? hc]
        exact uploadPart_ledger hk (List.mem_of_getElem? hc)
      · intro g₂ hle rs hperm hrs
        rw [List.length_map] at hperm
        split
        · rw [Prog.safe_bind]
          exact send_ledger ⟨body, rfl, rfl, hk.mono hle⟩ fun _ _ => Kept.error _
        · rename_i parts hparts
          refine send_ledger ⟨body, rfl, rfl, hk.mono hle, manifest_perm hparts hperm hrs⟩ fun n x => ?_
          cases x with
          | error e => exact Kept.error _
          | ok v => exact fun _ _ => Or.inr ⟨n, _, _, Set.mem_insert _ _⟩

end

/-! ## Downloads -/

/-- What the result of a download stands for. -/
def Loaded (self : S3Client κ) (key : String) (past : Set (Ev (S3 κ))) : S3Result Bytes → Prop
  | .ok d => Fetched self key past d
  | .error _ => Failed past

/-- What the metadata of `stat` stand for. -/
def Measured (self : S3Client κ) (key : String) (past : Set (Ev (S3 κ))) :
    S3Result ObjectMetadata → Prop
  | .ok info => ∃ n out, replied n (.headObject self.config.bucket key) (.ok out) ∈ past ∧
    info.contentLength = asU64 (out.contentLength.getD 0)
  | .error _ => Failed past

/-- What the `j`-th future of a download of `total` bytes brings. -/
def Ranged (self : S3Client κ) (key : String) (total j : ℕ) (past : Set (Ev (S3 κ))) :
    S3Result (ℕ × Bytes) → Prop
  | .ok x => x.1 = j ∧
    Got past self.config.bucket key (some (rangeOf self.config.chunkSize.toNat total x.1)) x.2
  | .error _ => Failed past

section

variable {self : S3Client κ} {op : Op} {key : String} {g : Set (Ev (S3 κ))}

theorem Loaded.mono (g g' : Set (Ev (S3 κ))) (r : S3Result Bytes) (h : g ⊆ g')
    (hr : Loaded self key g r) : Loaded self key g' r := by
  cases r with
  | ok d => exact Fetched.mono h hr
  | error e => exact Failed.mono h hr

theorem Measured.mono (g g' : Set (Ev (S3 κ))) (r : S3Result ObjectMetadata) (h : g ⊆ g')
    (hr : Measured self key g r) : Measured self key g' r := by
  cases r with
  | ok info =>
    obtain ⟨n, out, hm, hlen⟩ := hr
    exact ⟨n, out, h hm, hlen⟩
  | error e => exact Failed.mono h hr

theorem Ranged.mono {total j : ℕ} (g g' : Set (Ev (S3 κ))) (r : S3Result (ℕ × Bytes)) (h : g ⊆ g')
    (hr : Ranged self key total j g r) : Ranged self key total j g' r := by
  cases r with
  | ok x => exact ⟨hr.1, hr.2.mono h⟩
  | error e => exact Failed.mono h hr

theorem failed_lost {k : κ × Half} {a : Acquire} : Failed (insert (.lost k a) (insert (.want k a) g)) :=
  Or.inl ⟨k, a, Set.mem_insert _ _⟩

/-- **`stat`.** -/
theorem stat_ledger (hop : op = .get key ∨ op = .head key) :
    (self.stat key).Safe (ledger self op) (Measured self key) g := by
  refine guarded_ledger Measured.mono (fun g' _ => ?_) fun e => failed_lost
  simp only [Prog.bind_eq, Prog.pure_eq, Prog.safe_bind, Prog.safe_ret]
  refine send_ledger ⟨hop, rfl⟩ fun n x => ?_
  cases x with
  | error e => exact Or.inr (Or.inl ⟨n, _, e, Set.mem_insert _ _⟩)
  | ok out => exact ⟨n, out, Set.mem_insert _ _, rfl⟩

/-- **`simple_get`.** -/
theorem simpleGet_ledger :
    (self.simpleGet key).Safe (ledger self (.get key)) (Loaded self key) g := by
  refine guarded_ledger Loaded.mono (fun g' _ => ?_) fun e => failed_lost
  rw [safe_wait]
  refine ⟨trivial, ?_⟩
  unfold S3Client.getBody
  simp only [Leaf.bind_eq, Leaf.pure_eq, Leaf.safe_bind, Leaf.safe_clock, Leaf.safe_log]
  intro t
  refine Leaf.send_ledger (fun _ _ => ledger_solo) ⟨rfl, rfl⟩ fun n x t' => ⟨ledger_solo trivial, ?_⟩
  cases x with
  | error e =>
    exact fun t'' => ⟨ledger_solo trivial,
      Or.inr (Or.inl ⟨n, .getObject self.config.bucket key none, e, by simp⟩)⟩
  | ok out =>
    show Leaf.Safe _ _ _ (Leaf.bind (Leaf.collect out.body "body") _) _
    rw [Leaf.safe_bind]
    refine Leaf.collect_ledger (fun _ _ => ledger_solo) fun n' y => ?_
    simp only [Leaf.safe_bind, Leaf.safe_clock, Leaf.safe_log, Leaf.safe_ret]
    refine fun t'' => ⟨ledger_solo trivial, ?_⟩
    cases y with
    | error e => exact Or.inr (Or.inr ⟨n', out.body, e, by simp⟩)
    | ok d => exact Or.inl ⟨n, n', out, by simp, by simp⟩

theorem rangePart_ledger {total j : ℕ} :
    (self.rangePart key j (interval self.config.chunkSize.toNat total j)).Safe (ledger self (.get key))
      (ledger self (.get key)).Fine (Ranged self key total j) g := by
  unfold S3Client.rangePart
  simp only [Leaf.bind_eq, Leaf.pure_eq, Leaf.safe_bind, Leaf.safe_clock, Leaf.safe_log]
  intro t
  refine Leaf.send_ledger (fun _ _ => ledger_fine) ⟨rfl, rfl⟩ fun n x t' => ⟨ledger_fine trivial, ?_⟩
  cases x with
  | error e =>
    exact Or.inr (Or.inl ⟨n, .getObject self.config.bucket key 
      (some (rangeOf self.config.chunkSize.toNat total j)), e, by simp [rangeOf]⟩)
  | ok out =>
    show Leaf.Safe _ _ _ (Leaf.bind _ _) _
    rw [Leaf.safe_bind]
    refine Leaf.collect_ledger (fun _ _ => ledger_fine) fun n' y => ?_
    cases y with
    | error e => exact Or.inr (Or.inr ⟨n', out.body, e, by simp⟩)
    | ok d => exact fun t'' => ⟨ledger_fine trivial, rfl, n, n', out, by simp [rangeOf], by simp⟩

theorem ranged_all {total : ℕ} {rs : List (ℕ × S3Result (ℕ × Bytes))} {parts : List (ℕ × Bytes)}
    (h : rs.map Prod.snd = parts.map .ok) (hrs : ∀ x ∈ rs, Ranged self key total x.1 g x.2) :
    parts.map Prod.fst = rs.map Prod.fst ∧ ∀ x ∈ parts,
      Got g self.config.bucket key (some (rangeOf self.config.chunkSize.toNat total x.1)) x.2 := by
  induction rs generalizing parts with
  | nil =>
    cases parts with
    | nil => exact ⟨rfl, fun x hx => nomatch hx⟩
    | cons p parts => cases h
  | cons r rs ih =>
    cases parts with
    | nil => cases h
    | cons p parts =>
      obtain ⟨hr, hrest⟩ := List.cons.inj h
      obtain ⟨hfst, hall⟩ := ih hrest fun x hx => hrs x (List.mem_cons_of_mem _ hx)
      have hp := hrs r List.mem_cons_self
      rw [hr] at hp
      obtain ⟨hp₁, hp₂⟩ := hp
      refine ⟨by rw [List.map_cons, List.map_cons, hp₁, hfst], fun x hx => ?_⟩
      rcases List.mem_cons.mp hx with rfl | hx
      · exact hp₂
      · exact hall x hx

/-- **`range_get`.** -/
theorem rangeGet_ledger {out : HeadObjectOutput} {n : ℕ}
    (hm : replied n (.headObject self.config.bucket key) (.ok out) ∈ g)
    (hlt : self.config.multipartThreshold.toNat < asU64 (out.contentLength.getD 0)) :
    (self.rangeGet key (asU64 (out.contentLength.getD 0))).Safe (ledger self (.get key)) (Loaded self key) g := by
  generalize htotal : asU64 (out.contentLength.getD 0) = total at *
  refine guarded_ledger Loaded.mono (fun g₁ h₁ => ?_) fun e => failed_lost
  simp only [Prog.bind_eq, Prog.pure_eq, Prog.safe_bind, Prog.safe_ret]
  refine Prog.safe_bufferUnordered trivial (Ranged self key total)
    (fun j g g' r hg hr => hr.mono g g' r hg) ?_ ?_
  · intro j l hl
    rw [List.getElem?_map] at hl
    obtain ⟨i, hi, rfl⟩ := Option.map_eq_some_iff.mp hl
    obtain ⟨hj, hget⟩ := List.getElem?_eq_some_iff.mp hi
    rw [List.getElem_range] at hget
    rw [← hget]
    exact rangePart_ledger
  · intro g₂ h₂ rs hperm hrs
    rw [List.length_map, List.length_range] at hperm
    unfold S3Client.reassemble
    rw [Results.mapM_id]
    cases hall : Results.firstError (rs.map Prod.snd) with
    | some e =>
      obtain ⟨x, hx, hxe⟩ := List.mem_map.mp (Results.firstError_mem hall)
      have := hrs x hx
      rw [hxe] at this
      exact this
    | none =>
      have hok := (Results.map_values hall).symm
      generalize Results.values (rs.map Prod.snd) = parts at hok ⊢
      have hparts : parts.map Prod.fst = rs.map Prod.fst ∧ ∀ x ∈ parts,
          Got g₂ self.config.bucket key (some (rangeOf self.config.chunkSize.toNat total x.1)) x.2 := by
        refine ranged_all hok fun x hx => ?_
        exact hrs x hx
      refine Or.inr ⟨n, out, h₂ (h₁ hm), htotal ▸ hlt, parts.insertionSort _, ?_, rfl, ?_⟩
      · rw [htotal]
        exact sorted_range (hparts.1 ▸ hperm)
      · intro x hx
        rw [htotal]
        exact hparts.2 x ((List.perm_insertionSort _ _).mem_iff.mp hx)

end

/-! ## The operations -/

section

variable {self : S3Client κ} {g : Set (Ev (S3 κ))}

/-- **Every call is honest, and its result stands for what it says.** -/
theorem op_ledger (op : Op) : (op.program self).Safe (ledger self op) (op.Result self) g := by
  refine op_of_stages (T := (ledger self op).triples) (A := fun _ => True) (B := op.Result self)
    (C := op.Result self) (I := fun _ => True) ?_ (fun r g h => finish_ledger r fun _ hg => h.mono hg)
    ?_ g trivial
  · exact fun g _ => (safe_startOp _ _).mpr fun t => ⟨trivial, trivial⟩
  cases op with
  | put key body =>
    have hkept : ∀ g (r : S3Result Unit), Kept self key body g r →
        (Op.put key body).Result self g (r.map fun _ => .unit) := by
      intro g r h
      cases r with
      | ok v => exact h v rfl
      | error e => trivial
    refine ⟨fun _ => True, fun g _ => ⟨trivial, trivial⟩, fun _ g _ => ?_, fun _ g _ => ?_⟩
    · exact Prog.safe_weaken hkept _ _ multipartPut_ledger
    · exact Prog.safe_weaken hkept _ _ simplePut_ledger
  | get key =>
    refine ⟨Measured self key, Loaded self key, fun g _ => stat_ledger (Or.inl rfl), fun e g h => h,
      ?_, fun info _ g _ => simpleGet_ledger, fun d g h => ⟨trivial, d, rfl, ?_⟩, fun e g h => h⟩
    · rintro info hlt g ⟨n, out, hm, hlen⟩
      rw [hlen] at hlt ⊢
      exact rangeGet_ledger hm hlt
    · exact Fetched.mono (Set.subset_insert _ _) h
  | delete key =>
    refine fun g _ => guarded_ledger (fun _ _ _ _ h => h) (fun g' _ => ?_) fun _ => trivial
    simp only [Prog.bind_eq, Prog.pure_eq, Prog.safe_bind, Prog.safe_ret]
    exact send_ledger ⟨rfl, rfl⟩ fun n x => finish_ledger _ fun _ _ => trivial
  | head key => exact fun g _ => Prog.safe_weaken (fun _ _ _ => by trivial) _ _ (stat_ledger (Or.inr rfl))
  | list pfx recursive =>
    refine fun g _ => guarded_ledger (fun _ _ _ _ h => h) (fun g' _ => ?_) fun _ => trivial
    simp only [Prog.bind_eq, Prog.pure_eq, Prog.safe_bind, Prog.safe_ret]
    refine Prog.safe_repeat (fun _ _ => True) (fun g'' s _ => ⟨trivial, ?_⟩) trivial
    unfold S3Client.listPage
    simp only [Leaf.bind_eq, Leaf.safe_bind]
    refine Leaf.send_ledger (fun _ _ => ledger_solo) ⟨recursive, rfl, rfl⟩ fun n x => ?_
    cases x with
    | error e => exact finish_ledger _ fun _ _ => trivial
    | ok resp =>
      dsimp only [Except.mapError]
      split
      · trivial
      · exact finish_ledger _ fun _ _ => trivial

end

/-! ## Every run -/

section

variable {self : S3Client κ} {op : Op} {q : Proc κ}

theorem Proc.Watched.honest (h : q.Watched (ledger self op) (op.Result self) ∅) :
    ∀ e ∈ q.trace, HonestEvent self op q.past e :=
  h.accepts.memory

theorem Proc.Watched.tells (h : q.Watched (ledger self op) (op.Result self) ∅) {r : Outcome}
    (hm : q.mode = .ended (some r)) : op.Result self q.past r := by
  have hresult := h.result hm
  rw [Monitor.exec_memory] at hresult
  exact hresult

end

variable {ι : Type} [DecidableEq κ] [DecidableEq ι] {S : Setup κ ι} {s : Sys κ ι}
  {l : List ((ι × Act κ) × Sys κ ι)}

/-- **Every call is honest in every run.** -/
theorem honest_run (h : Run Sys.Step S.init l s) (i : ι) :
    (s.procs i).Watched (ledger (S.client i) (S.op i)) ((S.op i).Result (S.client i)) ∅ :=
  watched_run (op_ledger (S.op i)) h

/-- A question that a call can be answered was asked by it. -/
theorem sent_of_answered {t : Sys κ ι}
    (hr : Run Sys.Step S.init l s) {i : ι} {m : ℕ} {x : (S3 κ).Ask} {y : (S3 κ).Ans x}
    (hs : Sys.Step s (i, .code (some (.answered m x y))) t) : .sent m x ∈ (s.procs i).trace := by
  have hmem : .answered m x y ∈ (t.procs i).trace := by
    rw [(hs.trace_eq i).1, if_pos rfl]
    exact List.mem_cons_self
  have hsent : .sent m x ∈ (t.procs i).trace := (honest_run (hr.snoc hs) i).honest _ hmem
  rcases hs.mem_trace hsent with hsent | ⟨-, heq⟩
  · exact hsent
  · cases heq

end S3o
