import LogDensity.Context.Json
import Mathlib.Algebra.BigOperators.Group.List.Basic
import Mathlib.Algebra.Ring.Nat
import Mathlib.Data.List.Basic
import Mathlib.Data.Nat.Basic

/-!
# The extent of a document

A document has no more values in it than its text has characters (`size_le_length`). A token takes a
character at least, and a value takes a token that no other value takes: a scalar or a string its
own, an array or an object the bracket that closes it. Both passes over the text are bounded step by
step, the first in what is still to become a token, the second in the values that wait in open
containers.
-/

namespace LogDensity.Json

mutual

/-- The number of values in a document, the document itself counted. -/
def size : Json → Nat
  | .array items => sizeOfItems items + 1
  | .object members => sizeOfMembers members + 1
  | _ => 1

/-- The number of values in the items of an array. -/
def sizeOfItems : List Json → Nat
  | [] => 0
  | v :: vs => v.size + sizeOfItems vs

/-- The number of values in the members of an object. -/
def sizeOfMembers : List (String × Json) → Nat
  | [] => 0
  | (_, v) :: ms => v.size + sizeOfMembers ms

end

theorem sizeOfItems_eq_sum (items : List Json) : sizeOfItems items = (items.map size).sum := by
  induction items with
  | nil => rfl
  | cons v vs ih => simp [sizeOfItems, ih]

theorem sizeOfMembers_eq_sum (members : List (String × Json)) :
    sizeOfMembers members = (members.map fun m => m.2.size).sum := by
  induction members with
  | nil => rfl
  | cons m ms ih => simp [sizeOfMembers, ih]

theorem size_array (items : List Json) : (array items).size = (items.map size).sum + 1 := by
  rw [size, sizeOfItems_eq_sum]

theorem size_object (members : List (String × Json)) :
    (object members).size = (members.map fun m => m.2.size).sum + 1 := by
  rw [size, sizeOfMembers_eq_sum]

/-- A fold whose steps add to a measure at most the weight of what they take adds at most the weight
of all. -/
theorem le_of_foldlM_eq_some {σ τ : Type} {f : σ → τ → Option σ} (measure : σ → Nat)
    (weight : τ → Nat) (h : ∀ s t s', f s t = some s' → measure s' ≤ measure s + weight t)
    {ts : List τ} {s s' : σ} (hfold : ts.foldlM f s = some s') :
    measure s' ≤ measure s + (ts.map weight).sum := by
  induction ts generalizing s with
  | nil => simp_all
  | cons t ts ih =>
    rw [List.foldlM_cons] at hfold
    obtain ⟨mid, hmid, hrest⟩ := Option.bind_eq_some_iff.1 hfold
    have hhead := h s t mid hmid
    have htail := ih hrest
    rw [List.map_cons, List.sum_cons]
    omega

/-! ## Tokens -/

/-- The number of values that a token completes. -/
def Token.size : Token → Nat
  | .scalar v => v.size
  | .string _ => 1
  | .closeArray => 1
  | .closeObject => 1
  | _ => 0

/-- The number of values that tokens complete. -/
def sizeOfTokens (tokens : List Token) : Nat :=
  (tokens.map Token.size).sum

theorem sizeOfTokens_cons (t : Token) (tokens : List Token) :
    sizeOfTokens (t :: tokens) = t.size + sizeOfTokens tokens := by
  simp [sizeOfTokens]

theorem sizeOfTokens_reverse (tokens : List Token) :
    sizeOfTokens tokens.reverse = sizeOfTokens tokens := by
  simp [sizeOfTokens, List.map_reverse, List.sum_reverse]

theorem size_scalar_number (x : Float) : (Token.scalar (.number x)).size = 1 :=
  rfl

namespace Lexer

/-- The number of values that the tokens so far complete, one more for a token in progress. -/
def size (l : Lexer) : Nat :=
  sizeOfTokens l.tokens + match l.mode with
    | .between => 0
    | _ => 1

theorem size_le (l : Lexer) : l.size ≤ sizeOfTokens l.tokens + 1 := by
  unfold size
  split <;> omega

theorem size_word {cs : List Char} {t : Token} (h : word? cs = some t) : t.size = 1 := by
  unfold word? at h
  split_ifs at h <;> · cases h; rfl

theorem size_start {tokens : List Token} {c : Char} {l : Lexer} (h : start tokens c = some l) :
    l.size ≤ sizeOfTokens tokens + 1 := by
  unfold start at h
  split_ifs at h <;> · cases h; simp [size, sizeOfTokens_cons, Token.size, Nat.add_comm]

/-- A character completes or begins at most one value. -/
theorem size_step {l : Lexer} {c : Char} {l' : Lexer} (h : l.step c = some l') :
    l'.size ≤ l.size + 1 := by
  obtain ⟨tokens, mode⟩ := l
  -- what stays in the middle of a token, or comes out of it, holds no more than was counted
  have hinside (mode' : Lexer.Mode) : Lexer.size ⟨tokens, mode'⟩ ≤ sizeOfTokens tokens + 1 + 1 :=
    (size_le _).trans (Nat.le_succ _)
  cases mode with
  | between => exact size_start h
  | text rev =>
    simp only [step] at h
    split_ifs at h
    · cases h
      simp [size, sizeOfTokens_cons, Token.size]
      omega
    · cases h
      exact hinside _
    · cases h
      exact hinside _
  | escape rev =>
    simp only [step] at h
    split_ifs at h
    · cases h
      exact hinside _
    · obtain ⟨d, -, rfl⟩ := Option.map_eq_some_iff.1 h
      exact hinside _
  | unicode rev high left value =>
    simp only [step, Option.bind_eq_bind, Option.bind_eq_some_iff] at h
    obtain ⟨digit, -, h⟩ := h
    split_ifs at h
    · obtain ⟨mode', -, rfl⟩ := Option.map_eq_some_iff.1 h
      exact hinside _
    · cases h
      exact hinside _
  | pairBackslash rev high =>
    simp only [step] at h
    split_ifs at h
    cases h
    exact hinside _
  | pairMark rev high =>
    simp only [step] at h
    split_ifs at h
    cases h
    exact hinside _
  | digits rev =>
    simp only [step] at h
    split_ifs at h
    · cases h
      exact hinside _
    · simp only [Option.bind_eq_bind, Option.bind_eq_some_iff] at h
      obtain ⟨x, -, h⟩ := h
      have hle := size_start h
      rw [sizeOfTokens_cons, size_scalar_number, Nat.add_comm 1] at hle
      exact hle
  | word rev =>
    simp only [step] at h
    split_ifs at h
    · cases h
      exact hinside _
    · simp only [Option.bind_eq_bind, Option.bind_eq_some_iff] at h
      obtain ⟨t, ht, h⟩ := h
      have hle := size_start h
      rw [sizeOfTokens_cons, size_word ht, Nat.add_comm 1] at hle
      exact hle

theorem size_finish {l : Lexer} {tokens : List Token} (h : l.finish = some tokens) :
    sizeOfTokens tokens ≤ l.size := by
  obtain ⟨rev, mode⟩ := l
  cases mode with
  | between =>
    cases h
    exact (sizeOfTokens_reverse rev).le
  | digits cs =>
    simp only [finish, Option.bind_eq_bind, Option.bind_eq_some_iff] at h
    obtain ⟨x, -, h⟩ := h
    cases h
    rw [sizeOfTokens_reverse, sizeOfTokens_cons, size_scalar_number]
    exact (Nat.add_comm _ _).le
  | word cs =>
    simp only [finish, Option.bind_eq_bind, Option.bind_eq_some_iff] at h
    obtain ⟨t, ht, h⟩ := h
    cases h
    rw [sizeOfTokens_reverse, sizeOfTokens_cons, size_word ht]
    exact (Nat.add_comm _ _).le
  | _ => cases h

end Lexer

/-- The tokens of a text complete at most as many values as the text has characters. -/
theorem sizeOfTokens_le {s : String} {tokens : List Token} (h : tokens? s = some tokens) :
    sizeOfTokens tokens ≤ s.length := by
  obtain ⟨l, hl, hfinish⟩ := Option.bind_eq_some_iff.1 h
  have hfold := le_of_foldlM_eq_some Lexer.size (fun _ => 1) (fun _ _ _ => Lexer.size_step) hl
  have hempty : Lexer.size {} = 0 := rfl
  rw [List.map_const', List.sum_replicate_nat, String.length_toList, hempty, Nat.zero_add,
    Nat.mul_one] at hfold
  exact (Lexer.size_finish hfinish).trans hfold

/-! ## Documents -/

/-- The number of values that wait in an open container. -/
def Frame.size : Frame → Nat
  | .array rev => (rev.map Json.size).sum
  | .object rev _ => (rev.map fun m => m.2.size).sum

namespace Builder

/-- The number of values that wait in open containers. -/
def sizeOfStack (stack : List Frame) : Nat :=
  (stack.map Frame.size).sum

/-- The number of values read so far. -/
def size (b : Builder) : Nat :=
  sizeOfStack b.stack + match b.expected with
    | .nothing v => v.size
    | _ => 0

theorem size_deliver (v : Json) (stack : List Frame) :
    (deliver v stack).size = sizeOfStack stack + v.size := by
  rcases stack with _ | ⟨_ | _, stack⟩
  · rfl
  · simp [deliver, size, sizeOfStack, Frame.size]
    omega
  · simp [deliver, size, sizeOfStack, Frame.size]
    omega

theorem size_enter {f : Frame} {e : Expected} {stack : List Frame} {b : Builder}
    (hf : f.size = 0) (he : ∀ v, e ≠ .nothing v) (h : enter f e stack = some b) :
    b.size = sizeOfStack stack := by
  unfold enter at h
  split_ifs at h
  cases h
  cases e <;> simp_all [size, sizeOfStack]

theorem size_value {stack : List Frame} {t : Token} {b : Builder} (h : value stack t = some b) :
    b.size ≤ sizeOfStack stack + t.size := by
  cases t with
  | scalar v =>
    cases h
    exact (size_deliver v stack).le
  | string s =>
    cases h
    exact (size_deliver (.string s) stack).le
  | openArray => exact (size_enter rfl (by simp) h).le
  | openObject => exact (size_enter rfl (by simp) h).le
  | _ => cases h

theorem size_name {stack : List Frame} {t : Token} {b : Builder} (h : name stack t = some b) :
    b.size ≤ sizeOfStack stack + t.size := by
  unfold name at h
  split at h
  · cases h
    simp [size, sizeOfStack, Frame.size]
  · cases h

/-- A bracket makes one more value of those that waited in the container. -/
theorem size_close {stack : List Frame} {t : Token} {b : Builder} (h : close stack t = some b) :
    b.size ≤ sizeOfStack stack + t.size := by
  unfold close at h
  split at h
  · cases h
    rw [size_deliver, size_array]
    simp [sizeOfStack, Frame.size, Token.size, List.sum_reverse, List.map_reverse]
    omega
  · cases h
    rw [size_deliver, size_object]
    simp [sizeOfStack, Frame.size, Token.size, List.sum_reverse, List.map_reverse]
    omega
  · cases h

theorem size_step {b : Builder} {t : Token} {b' : Builder} (h : b.step t = some b') :
    b'.size ≤ b.size + t.size := by
  have hstack : sizeOfStack b.stack ≤ b.size := Nat.le_add_right _ _
  unfold step at h
  split at h
  · have := size_value h
    omega
  · rcases Option.or_eq_some_iff.1 h with h | ⟨-, h⟩
    · have := size_value h
      omega
    · have := size_close h
      omega
  · rcases Option.or_eq_some_iff.1 h with h | ⟨-, h⟩
    · have := size_name h
      omega
    · have := size_close h
      omega
  · have := size_name h
    omega
  · split at h
    · cases h
      exact hstack.trans (Nat.le_add_right _ _)
    · cases h
  · split at h
    · cases h
      exact hstack.trans (Nat.le_add_right _ _)
    · cases h
      exact hstack.trans (Nat.le_add_right _ _)
    · have := size_close h
      omega
  · cases h

theorem size_finish {b : Builder} {v : Json} (h : b.finish = some v) : v.size ≤ b.size := by
  unfold finish at h
  split at h
  · next hv =>
    cases h
    simp [size, hv]
  · cases h

end Builder

/-- **A document has at most as many values as its text has characters.** -/
theorem size_le_length {s : String} {v : Json} (h : ofString? s = some v) :
    v.size ≤ s.length := by
  simp only [ofString?, Option.bind_eq_bind, Option.bind_eq_some_iff] at h
  obtain ⟨tokens, htokens, b, hb, hfinish⟩ := h
  have hfold := le_of_foldlM_eq_some Builder.size Token.size (fun _ _ _ => Builder.size_step) hb
  have hempty : Builder.size {} = 0 := rfl
  rw [hempty, Nat.zero_add] at hfold
  exact ((Builder.size_finish hfinish).trans hfold).trans (sizeOfTokens_le htokens)

end LogDensity.Json
