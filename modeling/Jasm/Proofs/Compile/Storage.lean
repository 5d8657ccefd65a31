import Jasm.Proofs.Compile.Frames

/-!
# What is declared

As long as no error is reported, every variable that is declared can be stored, every constant holds
something, and every function takes and returns what can be stored. A function is declared before
the kinds of its parameters are looked at, so that until then what is declared is of a wider sort.
-/

namespace Jasm

open Assembly List

/-- What a declaration stands for can be written: variables and what functions pass can be stored,
and constants hold something. -/
def Symbol.Storable : Symbol → Prop
  | .variable _ v => isStorable v.kind
  | .constant _ v => v.isInit
  | .array _ => True
  | .function f => f.isStorable

namespace Compile

/-- A sort of symbols to which all belong that are storable. -/
structure Stock where
  sort : Symbol → Prop
  storable : ∀ x : Symbol, x.Storable → sort x

namespace Stock

/-- The symbols that are storable. -/
def strict : Stock := ⟨Symbol.Storable, fun _ => id⟩

def any : Stock := ⟨fun _ => True, fun _ _ => trivial⟩

/-- The symbols that are storable, and a function. -/
def pending (f : Signature) : Stock := ⟨fun x => x.Storable ∨ x = .function f, fun _ => .inl⟩

end Stock

namespace Scopes

/-- All that is declared in the open scopes is in stock. -/
def Stocked (A : Stock) (Γ : Scopes) : Prop :=
  ∀ s ∈ Γ.stack.global :: Γ.stack.inner, ∀ name e, s.get? name = some e → A.sort e.item

/-- All that is declared in the open scopes is storable. -/
abbrev Storable (Γ : Scopes) : Prop := Γ.Stocked .strict

namespace Stocked

variable {A : Stock} {Γ Γ' : Scopes} {name : String} {e : Entry Symbol}

theorem empty (bases : List Nat) : Stocked A ⟨{}, bases⟩ := by
  intro s hs name e he
  rw [mem_singleton.mp hs] at he
  simp [Scope.get?] at he

section

variable (h : Γ.Stocked A)
include h

theorem enter (method : Bool) : (Γ.enter method).Stocked A := by
  intro s hs name e he
  rcases mem_cons.mp hs with rfl | hs
  · exact h _ mem_cons_self name e he
  · rcases mem_cons.mp hs with rfl | hs
    · simp [Scope.get?] at he
    · exact h s (mem_cons_of_mem _ hs) name e he

theorem leave : Γ.leave.Stocked A := by
  intro s hs
  rcases mem_cons.mp hs with rfl | hs
  · exact h _ mem_cons_self
  · exact h s (mem_cons_of_mem _ (mem_of_mem_tail hs))

theorem top (he : Γ.stack.top.get? name = some e) : A.sort e.item := by
  refine h Γ.stack.top ?_ name e he
  unfold Stack.top
  cases Γ.stack.inner <;> simp

theorem insert? {x : Symbol} (hx : A.sort x) {slot : Option Nat}
    (inserted : Γ.insert? x = some (slot, Γ')) : Γ'.Stocked A := by
  obtain ⟨-, -, rfl⟩ := insert?_eq_some inserted
  have pushed : ∀ name e, (Γ.stack.top.push x.declaration slot).get? name = some e →
      A.sort e.item := by
    intro name e he
    rw [Scope.get?_push] at he
    split at he
    · cases he
      exact hx
    · exact h.top he
  obtain ⟨⟨_ | ⟨t, rest⟩, global⟩, bases⟩ := Γ
  · intro s hs
    rw [mem_singleton.mp hs]
    exact pushed
  · intro s hs
    rcases mem_cons.mp hs with rfl | hs
    · exact h _ mem_cons_self
    · rcases mem_cons.mp hs with rfl | hs
      · exact pushed
      · exact h s (mem_cons_of_mem _ (mem_cons_of_mem _ hs))

theorem find? {depth : Nat} (found : Γ.stack.find? name = some (depth, e)) :
    A.sort e.item := by
  rcases findIn_eq_some found with ⟨-, he⟩ | ⟨front, s, rest, inner, -, he, -⟩
  · exact h _ (by simp) name e he
  · exact h s (by simp [inner]) name e he

theorem mono {B : Stock} (wider : ∀ x, A.sort x → B.sort x) : Γ.Stocked B :=
  fun s hs name e he => wider _ (h s hs name e he)

end

end Stocked

end Scopes

/-- As long as no error is reported, all that is declared is in stock. -/
def State.Stocked (A : Stock) (c : State) : Prop := c.failed = false → c.scopes.Stocked A

end Compile

end Jasm
