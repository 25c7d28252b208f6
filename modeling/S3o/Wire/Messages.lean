import S3o.Async.Next
import S3o.System.History

/-!
# Messages

The requests of a call and what it is told, without its metrics, permits and reads of the clock.

* `Msg`, `messages`, `said`: the messages of a trace and of a history;
* `talk`: watches that look at the messages only;
* `requestsOf`: the requests among them.
-/

namespace S3o

open Async Lts

variable {κ : Type}

/-- A request, its reply, the wait for the rest of a body, and the body. -/
inductive Msg
  | request (r : Request)
  | reply (r : Request) (x : Except SdkError r.Output)
  | await (b : Bytes)
  | body (b : Bytes) (x : Except String Bytes)

/-- The message of an event. -/
def msgOf : Ev (S3 κ) → Option Msg
  | .sent _ (Await.http r) => some (.request r)
  | .sent _ (Await.collect b) => some (.await b)
  | .answered _ (Await.http r) x => some (.reply r x)
  | .answered _ (Await.collect b) x => some (.body b x)
  | _ => none

/-- The messages of a trace, newest first. -/
def messages (es : List (Ev (S3 κ))) : List Msg := es.filterMap msgOf

/-- The messages of a history, newest first. -/
def said (τ : History (S3 κ)) : List Msg := τ.filterMap fun x => match x.2 with
  | .event e => msgOf e
  | _ => none

section

variable {τ τ' : History (S3 κ)} {t n : ℕ}

theorem messages_events : messages τ.events = said τ := by
  unfold messages History.events said
  rw [List.filterMap_filterMap]
  refine List.filterMap_congr ?_
  rintro ⟨t, x⟩ -
  cases x <;> rfl

@[simp] theorem said_nil : said ([] : History (S3 κ)) = [] := rfl

@[simp] theorem said_append : said (τ ++ τ') = said τ ++ said τ' := List.filterMap_append

@[simp] theorem said_read : said ((t, .read) :: τ) = said τ := rfl

@[simp] theorem said_order (js : List ℕ) : said ((t, .order js) :: τ) = said τ := rfl

@[simp] theorem said_emit (e : Metric) : said ((t, .event (.emit e)) :: τ) = said τ := rfl

@[simp] theorem said_want (h : κ × Half) (a : Acquire) : said ((t, .event (.want h a)) :: τ) = said τ :=
  rfl

@[simp] theorem said_got (h : κ × Half) (a : Acquire) (d : ℕ) :
    said ((t, .event (.got h a d)) :: τ) = said τ := rfl

@[simp] theorem said_lost (h : κ × Half) (a : Acquire) : said ((t, .event (.lost h a)) :: τ) = said τ :=
  rfl

@[simp] theorem said_freed : said ((t, .event .freed) :: τ) = said τ := rfl

@[simp] theorem said_requested (r : Request) :
    said ((t, .event (requested n r)) :: τ) = .request r :: said τ := rfl

@[simp] theorem said_replied (r : Request) (x : Except SdkError r.Output) :
    said ((t, .event (replied n r x)) :: τ) = .reply r x :: said τ := rfl

@[simp] theorem said_awaited (b : Bytes) :
    said ((t, .event (.sent (S := S3 κ) n (Await.collect b))) :: τ) = .await b :: said τ := rfl

@[simp] theorem said_collected (b : Bytes) (x : Except String Bytes) :
    said ((t, .event (collected n b x)) :: τ) = .body b x :: said τ := rfl

theorem woven_said {n : ℕ} {A : ℕ → History (S3 κ) → Prop} {loc : ℕ → History (S3 κ)}
    (h : Woven n A loc τ) : Shuffle (fun j => said (loc j)) (said τ) := h.shuffle.filterMap _

end

/-- A watch on the messages. -/
@[reducible] def talk (P : List Msg → Prop) : Watch (S3 κ) := .of fun τ => P (said τ)

/-- The orders in which the streams of a history have completed. -/
def orders (τ : History (S3 κ)) : Set (List ℕ) := {js | ∃ t, (t, .order js) ∈ τ}

theorem orders_mono {τ τ' : History (S3 κ)} (h : τ <:+ τ') : orders τ ⊆ orders τ' := by
  rintro js ⟨t, ht⟩
  exact ⟨t, h.subset ht⟩

theorem orders_cons (τ : History (S3 κ)) (x : ℕ × Note (S3 κ)) : orders τ ⊆ orders (x :: τ) :=
  orders_mono (List.suffix_cons x τ)

theorem events_mono {τ τ' : History (S3 κ)} (h : τ <:+ τ') {e : Ev (S3 κ)} (he : e ∈ τ.events) :
    e ∈ τ'.events :=
  (h.filterMap _).subset he

theorem finish_spec {α : Type} {W : Watch (S3 κ)} {ψ : History (S3 κ) → Prop} {τ : History (S3 κ)}
    (r : S3Result α) (hW : ∀ τ', said τ' = said τ → W.always τ')
    (hψ : ∀ τ', said τ' = said τ → τ <:+ τ' → ψ τ') :
    (finish r : Prog (S3 κ) Unit).Spec W (fun _ τ' => ψ τ') τ := by
  cases r with
  | ok v =>
    show (recordOk : Prog (S3 κ) Unit).Spec _ _ _
    rw [spec_recordOk]
    exact ⟨hW _ rfl, fun t => ⟨hW _ rfl, fun t' => ⟨hW _ rfl, fun u => ⟨hW _ rfl, hψ _ rfl
      (List.suffix_append [_, _, _] τ)⟩⟩⟩⟩
  | error e =>
    show (recordErr e : Prog (S3 κ) Unit).Spec _ _ _
    rw [spec_recordErr]
    exact ⟨hW _ rfl, fun t => ⟨hW _ rfl, fun u => ⟨hW _ rfl, hψ _ rfl (List.suffix_append [_, _] τ)⟩⟩⟩

section

variable {es : List (Ev (S3 κ))} {r : Request}

theorem request_mem : .request r ∈ messages es ↔ ∃ n, requested n r ∈ es := by
  unfold messages
  rw [List.mem_filterMap]
  constructor
  · rintro ⟨e, he, h⟩
    unfold msgOf at h
    split at h <;> cases h
    exact ⟨_, he⟩
  · rintro ⟨n, h⟩
    exact ⟨_, h, rfl⟩

theorem heeded_reply {o : ∀ q, (S3 κ).Ans q} (h : Heeded o es) {x : Except SdkError r.Output}
    (hm : .reply r x ∈ messages es) : x = o (Await.http r) := by
  obtain ⟨e, he, hmsg⟩ := List.mem_filterMap.mp hm
  unfold msgOf at hmsg
  split at hmsg <;> cases hmsg
  exact h _ he

theorem heeded_body {o : ∀ q, (S3 κ).Ans q} (h : Heeded o es) {b : Bytes} {x : Except String Bytes}
    (hm : .body b x ∈ messages es) : x = o (Await.collect b) := by
  obtain ⟨e, he, hmsg⟩ := List.mem_filterMap.mp hm
  unfold msgOf at hmsg
  split at hmsg <;> cases hmsg
  exact h _ he

end

/-- The requests among the messages, newest first. -/
def requestsOf (ms : List Msg) : List Request := ms.filterMap fun
  | .request r => some r
  | _ => none

@[simp] theorem requestsOf_append (ms ms' : List Msg) :
    requestsOf (ms ++ ms') = requestsOf ms ++ requestsOf ms' := List.filterMap_append

@[simp] theorem requestsOf_request (r : Request) (ms : List Msg) :
    requestsOf (.request r :: ms) = r :: requestsOf ms := rfl

@[simp] theorem requestsOf_reply (r : Request) (x : Except SdkError r.Output) (ms : List Msg) :
    requestsOf (.reply r x :: ms) = requestsOf ms := rfl

@[simp] theorem requestsOf_nil : requestsOf [] = [] := rfl

end S3o
