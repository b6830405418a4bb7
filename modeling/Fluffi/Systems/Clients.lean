import Mathlib.Data.List.Basic

/-! A client that sends one request after the other, each by the replies to those before, and has
a result in the end. A server that replies at once gives it a conversation, and whoever has got
its first replies knows the next request. -/

namespace Fluffi.Systems

/-- A client goes on with the reply to its request, or it is done. -/
inductive Client (ι ρ α : Type*) where
  | done (result : α)
  | ask (request : ι) (go : ρ → Client ι ρ α)

variable {σ ι ρ α : Type*}

/-- The replies to some requests. -/
def serveAll (serve : σ → ι → ρ × σ) : σ → List ι → List ρ
  | _, [] => []
  | s, i :: is => (serve s i).1 :: serveAll serve (serve s i).2 is

section Replies

variable {serve : σ → ι → ρ × σ} {s : σ} {is js : List ι}

theorem serveAll_mono (h : is <+: js) :
    serveAll serve s is <+: serveAll serve s js := by
  induction is generalizing s js with
  | nil => exact List.nil_prefix
  | cons i is ih =>
    obtain ⟨rest, rfl⟩ := h
    exact List.cons_prefix_cons.mpr ⟨rfl, ih ⟨rest, rfl⟩⟩

theorem length_serveAll : (serveAll serve s is).length = is.length := by
  induction is generalizing s with
  | nil => rfl
  | cons i is ih => rw [serveAll, List.length_cons, List.length_cons, ih]

end Replies

namespace Client

/-- The client when it has got some replies. -/
def after : Client ι ρ α → List ρ → Client ι ρ α
  | done result, _ => done result
  | ask request go, [] => ask request go
  | ask _ go, r :: rs => (go r).after rs

section Conversation

variable (serve : σ → ι → ρ × σ)

/-- What it sends to a server that replies at once. -/
def requests : σ → Client ι ρ α → List ι
  | _, done _ => []
  | s, ask request go => request :: requests (serve s request).2 (go (serve s request).1)

/-- What it ends with then. -/
def result : σ → Client ι ρ α → α
  | _, done result => result
  | s, ask request go => result (serve s request).2 (go (serve s request).1)

/-- What it is told then. -/
def replies (s : σ) (client : Client ι ρ α) : List ρ := serveAll serve s (client.requests serve s)

end Conversation

variable {serve : σ → ι → ρ × σ} {s : σ} {client : Client ι ρ α} {is : List ι} {request : ι}
  {go : ρ → Client ι ρ α} {a : α}

/-- With the first replies, the next request is the one that comes then. -/
theorem next_request (h : is <+: client.requests serve s)
    (hafter : client.after (serveAll serve s is) = ask request go) :
    is ++ [request] <+: client.requests serve s := by
  induction is generalizing s client with
  | nil =>
    cases client with
    | done => cases hafter
    | ask i next =>
      obtain ⟨rfl, -⟩ := Client.ask.inj hafter
      exact List.cons_prefix_cons.mpr ⟨rfl, List.nil_prefix⟩
  | cons i is ih =>
    cases client with
    | done => cases hafter
    | ask j next =>
      obtain ⟨rfl, hrest⟩ := List.cons_prefix_cons.mp h
      exact List.cons_prefix_cons.mpr ⟨rfl, ih hrest hafter⟩

end Client

end Fluffi.Systems
