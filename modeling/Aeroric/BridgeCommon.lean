import Aeroric.Json
import Aeroric.Table
import Mathlib.Data.String.Basic

/-! What the bridges between the protocols share. -/
namespace Aeroric.LocalRouter
open Json

/-- Prompt tokens from the provider's cache, whatever it calls the field. -/
def cachedPromptTokens (usage : Value) : ℕ :=
  let number := fun path => (usage.pointer path).bind Value.asU64
  (number ["prompt_tokens_details", "cached_tokens"] <|>
    number ["input_tokens_details", "cached_tokens"] <|> number ["prompt_cache_hit_tokens"] <|>
    number ["cached_tokens"] <|> number ["cache_read_input_tokens"]).getD 0

def chatUsage (prompt completion cached : ℕ) : Value :=
  .obj ([("prompt_tokens", .int prompt), ("completion_tokens", .int completion)] ++
    if 0 < cached then [("prompt_tokens_details", .obj [("cached_tokens", .int cached)])] else [])

/-- Which call an entry of `tool_calls` belongs to. -/
structure CallIndexer where
  byId : Table String ℕ := .empty
  current : Option ℕ := none
  next : ℕ := 0

namespace CallIndexer

def allocate (c : CallIndexer) : ℕ × CallIndexer :=
  (c.next, { c with next := c.next + 1, current := some c.next })

def index (c : CallIndexer) (call : Value) (position : ℕ) : ℕ × CallIndexer :=
  let id := (call.getStr "id").filter (· ≠ "")
  match call.getU64 "index" with
  | some index =>
    (index, {
      byId := match id with
        | some id => c.byId.set id index
        | none => c.byId
      next := max c.next (index + 1)
      current := some index })
  | none =>
    match id with
    | some id =>
      match c.byId.get id with
      | some index => (index, { c with current := some index })
      | none => (c.allocate.1, { c.allocate.2 with byId := c.byId.set id c.allocate.1 })
    | none =>
      match c.current with
      | some index => if position = 0 then (index, c) else c.allocate
      | none => c.allocate

lemma index_of_index {c : CallIndexer} {call : Value} {index : ℕ} (h : call.getU64 "index" = some index)
    (position : ℕ) : (c.index call position).1 = index := by
  unfold CallIndexer.index
  rw [h]

end CallIndexer

end Aeroric.LocalRouter
