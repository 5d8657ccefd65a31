import Jasm.Assembly.Call
import Jasm.Proofs.Assembly.Refusing

/-!
# Sequences of calls

A part of a program is written by a sequence of calls. It is carried out if all of its calls are,
and otherwise it is refused with the fault of the first call that is refused.
-/

namespace Jasm.Assembly

namespace Generator

/-- Calls are carried out one after the other. -/
inductive Carries : Generator → List Call → Generator → Prop where
  | nil (g : Generator) : Carries g [] g
  | cons {g g₁ g₂ : Generator} {c : Call} {r : Reply} {cs : List Call} :
      c.perform.Writes g r g₁ → Carries g₁ cs g₂ → Carries g (c :: cs) g₂

/-- Behind calls that are carried out, one is refused with a fault. -/
def Refuses (g : Generator) (cs : List Call) (f : Fault) : Prop :=
  ∃ g₁ c, g.Carries cs g₁ ∧ (g₁.step c).1 = .error f

variable {g g₁ g₂ : Generator} {cs ds : List Call}

theorem Carries.trans (first : g.Carries cs g₁) (second : g₁.Carries ds g₂) :
    g.Carries (cs ++ ds) g₂ := by
  induction first with
  | nil g => exact second
  | cons done _ ih => exact .cons done (ih second)

theorem Carries.refuses {f : Fault} (first : g.Carries cs g₁) (second : g₁.Refuses ds f) :
    g.Refuses (cs ++ ds) f := by
  obtain ⟨g₂, c, carried, refused⟩ := second
  exact ⟨g₂, c, first.trans carried, refused⟩

end Generator

namespace Emit

variable {α β : Type}

/-- A step is a sequence of calls. -/
structure Sequence (m : Emit α) : Prop where
  carries : ∀ {g a g'}, m.Writes g a g' → ∃ cs, g.Carries cs g'
  refuses : ∀ {g f g'}, m.run.run g = (.error f, g') → ∃ cs, g.Refuses cs f

namespace Sequence

theorem pure {a : α} : Sequence (pure a) where
  carries w := by
    obtain ⟨-, rfl⟩ := writes_pure.mp w
    exact ⟨[], .nil _⟩
  refuses r := by cases r

theorem bind {m : Emit α} {k : α → Emit β} (first : Sequence m) (second : ∀ a, Sequence (k a)) :
    Sequence (m >>= k) where
  carries w := by
    obtain ⟨a, g₁, w₁, w₂⟩ := writes_bind.mp w
    obtain ⟨cs, carried⟩ := first.carries w₁
    obtain ⟨ds, carried'⟩ := (second a).carries w₂
    exact ⟨cs ++ ds, carried.trans carried'⟩
  refuses {g f g'} r := by
    rcases writes_or_refused m g with ⟨a, w⟩ | ⟨f', refused⟩
    · rw [run_bind_of_writes w] at r
      obtain ⟨cs, carried⟩ := first.carries w
      obtain ⟨ds, refused⟩ := (second a).refuses r
      exact ⟨cs ++ ds, carried.refuses refused⟩
    · rw [run_bind_of_refused refused] at r
      cases r
      exact first.refuses refused

theorem ite {p : Prop} [Decidable p] {m m' : Emit α} (yes : Sequence m) (no : Sequence m') :
    Sequence (if p then m else m') := by
  split
  · exact yes
  · exact no

theorem of_call {m : Emit α} {c : Call} {reply : α → Reply}
    (h : c.perform = m >>= fun a => Pure.pure (reply a)) : Sequence m where
  carries {g a g'} w := by
    have done : c.perform.Writes g (reply a) g' := by
      rw [h]
      exact writes_bind.mpr ⟨a, g', w, writes_pure.mpr ⟨rfl, rfl⟩⟩
    exact ⟨[c], .cons done (.nil g')⟩
  refuses {g f g'} r := by
    refine ⟨[], g, c, .nil g, ?_⟩
    rw [Generator.step, h, run_bind_of_refused r]

theorem of_done {m : Emit Unit} {c : Call} (h : c.perform = m *> Pure.pure .done) : Sequence m :=
  of_call (h.trans (seqRight_eq_bind m _))

theorem of_block {m : Emit Nat} {c : Call} (h : c.perform = Reply.block <$> m) : Sequence m :=
  of_call (h.trans (map_eq_pure_bind _ m))

end Sequence

end Emit

end Jasm.Assembly
