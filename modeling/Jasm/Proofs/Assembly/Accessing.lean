import Jasm.Proofs.Assembly.Writing

/-!
# Lines behind lines

All that a step does to the text of a program is to write lines behind those that are there, be it
carried out or refused on the way. Only the loads and stores of local variables name a slot of the
frame, so what slots a composite step accesses is read off from the loads and stores in it. And no
step asks whether lines are indented, which is decided when the text is made.
-/

namespace Jasm.Assembly

/-- The slot of the frame that an instruction reads or writes. -/
def Instruction.slot? : Instruction → Option Nat
  | .loadLocal n | .storeLocal n => some n
  | _ => none

/-- The slot of the frame that a line reads or writes. -/
def Line.slot? : Line → Option Nat
  | .instr i => i.slot?
  | _ => none

/-- The second program is the first one with some lines behind it that access only slots in `S`. -/
def Generator.Grown (S : Nat → Prop) (g g' : Generator) : Prop :=
  ∃ new, g'.lines.toList = g.lines.toList ++ new ∧ ∀ l ∈ new, ∀ n ∈ l.2.slot?, S n

namespace Generator.Grown

variable {S S' : Nat → Prop} {g g₁ g₂ : Generator}

theorem of_lines (h : g₁.lines = g.lines) : Grown S g g₁ := ⟨[], by simp [h], by simp⟩

theorem refl {g : Generator} : Grown S g g := of_lines rfl

theorem trans (first : Grown S g g₁) (second : Grown S g₁ g₂) : Grown S g g₂ := by
  obtain ⟨new₁, lines₁, slots₁⟩ := first
  obtain ⟨new₂, lines₂, slots₂⟩ := second
  refine ⟨new₁ ++ new₂, by rw [lines₂, lines₁, List.append_assoc], fun l hl => ?_⟩
  rcases List.mem_append.mp hl with hl | hl
  · exact slots₁ l hl
  · exact slots₂ l hl

theorem mono (h : Grown S g g₁) (sub : ∀ n, S n → S' n) : Grown S' g g₁ := by
  obtain ⟨new, lines, slots⟩ := h
  exact ⟨new, lines, fun l hl n hn => sub n (slots l hl n hn)⟩

theorem push {l : Line} (h : ∀ n ∈ l.slot?, S n) : Grown S g (g.push l) :=
  ⟨[(g.depth, l)], by simp [Generator.push], by simpa using h⟩

theorem pushInstr {i : Instruction} (h : ∀ n ∈ i.slot?, S n) : Grown S g (g.pushInstr i) :=
  push h

end Generator.Grown

/-- The same program, indented or not. -/
def Generator.withIndent (g : Generator) (b : Bool) : Generator :=
  { g with options := { g.options with indent := b } }

namespace Emit

variable {α β : Type} {S : Nat → Prop} {g g' : Generator}

theorem writes_or_refused (m : Emit α) (g : Generator) :
    (∃ a, m.Writes g a (m.run.run g).2) ∨ ∃ f, m.run.run g = (.error f, (m.run.run g).2) := by
  unfold Writes
  rcases m.run.run g with ⟨_ | a, g'⟩
  · exact .inr ⟨_, rfl⟩
  · exact .inl ⟨a, rfl⟩

theorem run_bind_of_writes {m : Emit α} {a : α} (h : m.Writes g a g') (k : α → Emit β) :
    (m >>= k).run.run g = (k a).run.run g' := by
  rw [ExceptT.run_bind, StateT.run_bind, h]
  rfl

theorem run_bind_of_refused {m : Emit α} {f : Fault} (h : m.run.run g = (.error f, g'))
    (k : α → Emit β) : (m >>= k).run.run g = (.error f, g') := by
  rw [ExceptT.run_bind, StateT.run_bind, h]
  rfl

/-- A step does the same to a program whether lines are indented or not. -/
def Blind (m : Emit α) (g : Generator) : Prop :=
  ∀ b, m.run.run (g.withIndent b) = ((m.run.run g).1, (m.run.run g).2.withIndent b)

theorem Blind.bind {m : Emit α} {k : α → Emit β} (h : Blind m g)
    (hk : ∀ a g', m.Writes g a g' → Blind (k a) g') : Blind (m >>= k) g := by
  intro b
  have first := h b
  rcases writes_or_refused m g with ⟨a, w⟩ | ⟨f, r⟩
  · rw [w] at first
    rw [run_bind_of_writes w, run_bind_of_writes first]
    exact hk a _ w b
  · rw [r] at first
    rw [run_bind_of_refused r, run_bind_of_refused first]

theorem Blind.get_bind {k : Generator → Emit β} (same : ∀ b, k (g.withIndent b) = k g)
    (hk : Blind (k g) g) : Blind ((get : Emit Generator) >>= k) g := by
  intro b
  show (k (g.withIndent b)).run.run (g.withIndent b) = _
  rw [same]
  exact hk b

/-- A step on a program writes lines that access only slots in `S`, and does the same whether they
are indented or not. -/
structure Appends (S : Nat → Prop) (m : Emit α) (g : Generator) : Prop where
  grown : Generator.Grown S g (m.run.run g).2
  blind : Blind m g

namespace Appends

theorem bind {m : Emit α} {k : α → Emit β} (h : Appends S m g)
    (hk : ∀ a g', m.Writes g a g' → Appends S (k a) g') : Appends S (m >>= k) g := by
  refine ⟨?_, h.blind.bind fun a g' w => (hk a g' w).blind⟩
  rcases writes_or_refused m g with ⟨a, w⟩ | ⟨f, r⟩
  · rw [run_bind_of_writes w]
    exact h.grown.trans (hk a _ w).grown
  · rw [run_bind_of_refused r]
    exact h.grown

theorem get_bind {k : Generator → Emit β} (same : ∀ b, k (g.withIndent b) = k g)
    (hk : Appends S (k g) g) : Appends S ((get : Emit Generator) >>= k) g :=
  ⟨hk.grown, .get_bind same hk.blind⟩

end Appends

/-- From wherever it starts, a step accesses only slots in `S`. -/
def Accesses (S : Nat → Prop) (m : Emit α) : Prop := ∀ g, Appends S m g

namespace Accesses

theorem pure (a : α) : Accesses S (Pure.pure a : Emit α) := fun _ => ⟨.refl, fun _ => rfl⟩

theorem bind {m : Emit α} {k : α → Emit β} (h : Accesses S m) (hk : ∀ a, Accesses S (k a)) :
    Accesses S (m >>= k) := fun g => (h g).bind fun a g' _ => hk a g'

theorem get_bind {k : Generator → Emit β} (same : ∀ g b, k (g.withIndent b) = k g)
    (hk : ∀ s, Accesses S (k s)) : Accesses S ((get : Emit Generator) >>= k) :=
  fun g => .get_bind (same g) (hk g g)

theorem modify {f : Generator → Generator}
    (h : ∀ g b, (f g).lines = g.lines ∧ f (g.withIndent b) = (f g).withIndent b) :
    Accesses S (modify f : Emit PUnit) :=
  fun g => ⟨.of_lines (h g true).1, fun b => congrArg (Prod.mk _) (h g b).2⟩

theorem instr {i : Instruction} (h : ∀ n ∈ i.slot?, S n) : Accesses S (Emit.instr i) :=
  fun _ => ⟨.pushInstr h, fun _ => rfl⟩

theorem line {l : Line} (h : ∀ n ∈ l.slot?, S n) : Accesses S (Emit.line l) :=
  fun _ => ⟨.push h, fun _ => rfl⟩

theorem ite {c : Prop} [Decidable c] {m m' : Emit α} (h : Accesses S m) (h' : Accesses S m') :
    Accesses S (if c then m else m') := by
  split
  · exact h
  · exact h'

end Accesses

end Emit

end Jasm.Assembly
