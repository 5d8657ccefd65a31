import Mathlib.Data.List.Nodup
import Jasm.Proofs.Assembly.Extension
import Jasm.Proofs.Assembly.History

/-!
# Verifying bodies

A verifier goes over the body of a method without running it. It gives each place in the body the
types of what stands on the operand stack whenever control comes there, and checks one instruction
at a time: the operands that it needs are there, and all places to which control may go from it have
the stack that it leaves.

Pieces of code are verified by themselves, with the stacks at labels as an assumption, and put
together one behind the other. A whole body defines its own labels, so nothing is left to assume.
-/

namespace Jasm.Assembly

open List

/-! ## Types of operands -/

/-- What a verifier knows of something on an operand stack. -/
inductive OperandType where
  | int
  | string
  | stream
  deriving DecidableEq, Repr

/-- An operand stack as a verifier sees it, its top first. -/
abbrev StackType := List OperandType

def Printed.operandType : Printed → OperandType
  | .string => .string
  | .int | .boolean | .char => .int

def takeInts : Nat → StackType → Option StackType
  | 0, σ => some σ
  | n + 1, .int :: σ => takeInts n σ
  | _ + 1, _ => none

/-- The stack that an instruction leaves, if it finds what it needs, in a method that gives a result
or none. -/
def Instruction.effect? (returns : Bool) : Instruction → StackType → Option StackType
  | .loadGlobal _, σ | .loadLocal _, σ => some (.int :: σ)
  | .pushShort _, σ | .pushInt _, σ | .pushBool _, σ => some (.int :: σ)
  | .pushString _, σ => some (.string :: σ)
  | .pushStream, σ => some (.stream :: σ)
  | .storeGlobal _, .int :: σ | .storeLocal _, .int :: σ => some σ
  | .pop, _ :: σ => some σ
  | .op .neg, .int :: σ => some (.int :: σ)
  | .op _, .int :: .int :: σ => some (.int :: σ)
  | .branch _ _, .int :: σ => some σ
  | .goto _, σ | .label _, σ => some σ
  | .invoke _ arity result, σ => (takeInts arity σ).map fun σ => if result then .int :: σ else σ
  | .print what _, t :: .stream :: σ => if t = what.operandType then some σ else none
  | .ret, σ => if returns then none else some σ
  | .retValue, .int :: σ => if returns then some σ else none
  | _, _ => none

theorem takeInts_replicate (n : Nat) (σ : StackType) :
    takeInts n (List.replicate n .int ++ σ) = some σ := by
  induction n with
  | zero => rfl
  | succ n ih => exact ih

/-! ## Places in a body -/

/-- Control may go from the instruction at `i` to the place `j`. -/
def Successor (body : List Instruction) (i j : Nat) : Prop :=
  ∃ instr : Instruction, body[i]? = some instr ∧ (instr.isTerminal = false ∧ j = i + 1 ∨
    ∃ l, instr.target? = some l ∧ body[j]? = some (.label l))

/-- The stacks at the places of a body pass the verifier. They are empty at some of the places. -/
structure Verified (returns : Bool) (body : List Instruction) (boundaries : List Nat)
    (typing : Nat → StackType) : Prop where
  entry : typing 0 = []
  boundary : ∀ b ∈ boundaries, typing b = []
  step : ∀ (i : Nat) (instr : Instruction), body[i]? = some instr →
    ∃ out, instr.effect? returns (typing i) = some out ∧ ∀ j, Successor body i j → typing j = out
  falls : ∀ (i : Nat) (instr : Instruction), body[i]? = some instr → instr.isTerminal = false →
    i + 1 < body.length
  jumps : ∀ (i : Nat) (instr : Instruction) l, body[i]? = some instr → instr.target? = some l →
    ∃ j : Nat, body[j]? = some (.label l)

/-! ## Pieces of code -/

/-- Stacks along some code, the last one behind it. `K` tells the stacks at labels. -/
inductive Flow (returns : Bool) (K : Label → StackType → Prop) :
    StackType → List Instruction → List StackType → StackType → Prop where
  | nil (σ : StackType) : Flow returns K σ [] [] σ
  | cons {i : Instruction} {code : List Instruction} {σ out next τ : StackType}
      {ss : List StackType} : i.effect? returns σ = some out →
      (∀ l, i.target? = some l → K l out) → (∀ l, i = .label l → K l σ) →
      (i.isTerminal = false → next = out) → Flow returns K next code ss τ →
      Flow returns K σ (i :: code) (σ :: ss) τ

namespace Flow

variable {returns : Bool} {K : Label → StackType → Prop} {σ τ ρ : StackType}
  {code code' : List Instruction} {ss ss' : List StackType}

section

variable (h : Flow returns K σ code ss τ)
include h

theorem length_eq : ss.length = code.length := by
  induction h with
  | nil _ => rfl
  | cons _ _ _ _ _ ih => rw [length_cons, length_cons, ih]

theorem first : (ss ++ [τ])[0]? = some σ := by
  cases h <;> rfl

theorem append (h' : Flow returns K τ code' ss' ρ) :
    Flow returns K σ (code ++ code') (ss ++ ss') ρ := by
  induction h with
  | nil _ => exact h'
  | cons effect target label falls _ ih => exact .cons effect target label falls (ih h')

theorem at_place {i : Nat} {instr : Instruction} (hi : code[i]? = some instr) :
    ∃ before out, (ss ++ [τ])[i]? = some before ∧ instr.effect? returns before = some out ∧
      (instr.isTerminal = false → (ss ++ [τ])[i + 1]? = some out) ∧
      (∀ l, instr.target? = some l → K l out) ∧ ∀ l, instr = .label l → K l before := by
  induction h generalizing i with
  | nil _ => simp at hi
  | @cons instr' code σ out next τ ss effect target label falls rest ih =>
    cases i with
    | zero =>
      cases hi
      refine ⟨σ, out, rfl, effect, fun h => ?_, target, label⟩
      rw [← falls h]
      exact rest.first
    | succ i => exact ih hi

end

end Flow

/-- A stack somewhere along some code or behind it. -/
def At (ss : List StackType) (τ : StackType) (b : Nat) (σ : StackType) : Prop :=
  (ss ++ [τ])[b]? = some σ

/-- The deepest of some stacks has a depth. -/
structure Peak (ss : List StackType) (depth : Nat) : Prop where
  le : ∀ s ∈ ss, s.length ≤ depth
  attained : ∃ s ∈ ss, s.length = depth

theorem Peak.append {ss ss' : List StackType} {τ : StackType} {depth depth' : Nat}
    (h : Peak (ss ++ [τ]) depth) (h' : Peak ss' depth') (shared : τ ∈ ss') :
    Peak (ss ++ ss') (max depth depth') := by
  constructor
  · intro s hs
    rcases mem_append.mp hs with hs | hs
    · exact Nat.le_trans (h.le s (mem_append_left _ hs)) (Nat.le_max_left ..)
    · exact Nat.le_trans (h'.le s hs) (Nat.le_max_right ..)
  · rcases Nat.le_total depth depth' with le | le
    · obtain ⟨s, hs, rfl⟩ := h'.attained
      exact ⟨s, mem_append_right _ hs, (Nat.max_eq_right le).symm⟩
    · obtain ⟨s, hs, rfl⟩ := h.attained
      refine ⟨s, ?_, (Nat.max_eq_left le).symm⟩
      rcases mem_append.mp hs with hs | hs
      · exact mem_append_left _ hs
      · cases mem_singleton.mp hs
        exact mem_append_right _ shared

theorem peak_pair {σ τ : StackType} : Peak [σ, τ] (max σ.length τ.length) := by
  refine ⟨fun s hs => ?_, ?_⟩
  · rcases mem_pair.mp hs with rfl | rfl
    · exact Nat.le_max_left _ _
    · exact Nat.le_max_right _ _
  rcases Nat.le_total σ.length τ.length with le | le
  · exact ⟨τ, by simp, (Nat.max_eq_right le).symm⟩
  · exact ⟨σ, by simp, (Nat.max_eq_left le).symm⟩

/-- Code that leads from one stack to another. The deepest stack on the way has a depth, and the
stack is empty at the boundaries. -/
def Piece (returns : Bool) (K : Label → StackType → Prop) (code : List Instruction)
    (σ τ : StackType) (depth : Nat) (boundaries : List Nat) : Prop :=
  ∃ ss, Flow returns K σ code ss τ ∧ Peak (ss ++ [τ]) depth ∧ ∀ b ∈ boundaries, At ss τ b []

namespace Piece

variable {returns : Bool} {K : Label → StackType → Prop} {σ τ ρ : StackType}
  {code code' : List Instruction} {depth depth' : Nat} {bs bs' : List Nat} {l : Label}
  {i : Instruction}

theorem congr (h : Piece returns K code σ τ depth bs) (eq : depth = depth') (sub : bs' ⊆ bs) :
    Piece returns K code σ τ depth' bs' := by
  obtain ⟨ss, flow, peak, empty⟩ := h
  exact ⟨ss, flow, eq ▸ peak, fun b hb => empty b (sub hb)⟩

theorem nil (σ : StackType) : Piece returns K [] σ σ σ.length [] :=
  ⟨[], .nil σ, ⟨by simp, by simp⟩, by simp⟩

theorem start (h : Piece returns K code [] τ depth bs) :
    Piece returns K code [] τ depth (0 :: bs) := by
  obtain ⟨ss, flow, peak, empty⟩ := h
  exact ⟨ss, flow, peak, forall_mem_cons.mpr ⟨flow.first, empty⟩⟩

theorem append (h : Piece returns K code σ τ depth bs)
    (h' : Piece returns K code' τ ρ depth' bs') :
    Piece returns K (code ++ code') σ ρ (max depth depth') (bs ++ bs'.map (code.length + ·)) := by
  obtain ⟨ss, flow, peak, empty⟩ := h
  obtain ⟨ss', flow', peak', empty'⟩ := h'
  refine ⟨ss ++ ss', flow.append flow', ?_, ?_⟩
  · rw [append_assoc]
    exact peak.append peak' (mem_of_getElem? flow'.first)
  · intro b hb
    unfold At
    rw [append_assoc]
    rcases mem_append.mp hb with hb | hb
    · have found := empty b hb
      unfold At at found
      rcases Nat.lt_or_ge b ss.length with lt | ge
      · rwa [getElem?_append_left lt] at found ⊢
      · -- The end of the first piece is the beginning of the second one.
        have last : b = ss.length := by
          have := (List.getElem?_eq_some_iff.mp found).1
          simp at this
          omega
        subst last
        rw [getElem?_append_right (Nat.le_refl _), Nat.sub_self] at found ⊢
        rw [flow'.first]
        exact found
    · obtain ⟨b', hb', rfl⟩ := mem_map.mp hb
      rw [← flow.length_eq, getElem?_append_right (Nat.le_add_right ..),
        Nat.add_sub_cancel_left]
      exact empty' b' hb'

theorem instr (effect : i.effect? returns σ = some τ) (target : ∀ l, i.target? = some l → K l τ)
    (label : ∀ l, i = .label l → K l σ) :
    Piece returns K [i] σ τ (max σ.length τ.length) [] :=
  ⟨[σ], .cons effect target label (fun _ => rfl) (.nil τ), peak_pair, by simp⟩

theorem plain (effect : i.effect? returns σ = some τ) (target : i.target? = none)
    (label : i.label? = none) : Piece returns K [i] σ τ (max σ.length τ.length) [] := by
  apply instr effect
  · intro l h
    rw [target] at h
    cases h
  · rintro l rfl
    cases label

theorem terminal (effect : i.effect? returns σ = some ρ) (target : ∀ l, i.target? = some l → K l ρ)
    (ends : i.isTerminal) (label : i.label? = none) {τ : StackType} :
    Piece returns K [i] σ τ (max σ.length τ.length) [] := by
  refine ⟨[σ], .cons effect target ?_ ?_ (.nil τ), peak_pair, by simp⟩
  · rintro l rfl
    cases label
  · intro h
    rw [ends] at h
    cases h

theorem label (at_label : K l σ) : Piece returns K [.label l] σ σ (max σ.length σ.length) [] :=
  instr rfl (by simp [Instruction.target?]) (by rintro _ ⟨⟩; exact at_label)

theorem goto (at_label : K l σ) (τ : StackType) :
    Piece returns K [.goto l] σ τ (max σ.length τ.length) [] :=
  terminal (ρ := σ) rfl (by rintro _ ⟨⟩; exact at_label) rfl rfl

theorem branch (c : Cond) (at_label : K l σ) :
    Piece returns K [.branch c l] (.int :: σ) σ (max (σ.length + 1) σ.length) [] :=
  instr rfl (by rintro _ ⟨⟩; exact at_label) (by simp)

theorem relation (c : Cond) {truthy join : Label} (at_truthy : K truthy σ)
    (at_join : K join (.int :: σ)) :
    Piece returns K (Emit.relationCode c truthy join) (.int :: .int :: σ) (.int :: σ)
      (σ.length + 2) [] := by
  have sub : Piece returns K [.op .sub] (.int :: .int :: σ) (.int :: σ) _ [] := plain rfl rfl rfl
  have no : Piece returns K [.pushBool false] σ (.int :: σ) _ [] := plain rfl rfl rfl
  have yes : Piece returns K [.pushBool true] σ (.int :: σ) _ [] := plain rfl rfl rfl
  have whole := sub.append ((branch c at_truthy).append (no.append ((goto at_join σ).append
    ((label at_truthy).append (yes.append (label at_join))))))
  refine whole.congr ?_ (nil_subset _)
  simp only [length_cons]
  omega

end Piece

/-- Code that can be verified whatever stands around it: there are stacks at its own labels with
which it is a piece. -/
def Verifiable (returns : Bool) (code : List Instruction) (σ τ : StackType) (depth : Nat)
    (boundaries : List Nat) : Prop :=
  ∃ L : List (Label × StackType), L.map Prod.fst = labels code ∧
    ∀ K : Label → StackType → Prop, (∀ x ∈ L, K x.1 x.2) →
      Piece returns K code σ τ depth boundaries

namespace Verifiable

variable {returns : Bool} {σ τ ρ : StackType} {code code' : List Instruction} {depth depth' : Nat}
  {bs bs' : List Nat}

theorem congr (h : Verifiable returns code σ τ depth bs) (eq : depth = depth') :
    Verifiable returns code σ τ depth' bs := eq ▸ h

theorem of_piece (h : ∀ K, Piece returns K code σ τ depth bs) (none : labels code = []) :
    Verifiable returns code σ τ depth bs :=
  ⟨[], none.symm, fun K _ => h K⟩

theorem nil : Verifiable returns [] [] [] 0 [] := of_piece (fun _ => .nil []) rfl

theorem plain {i : Instruction} (effect : i.effect? returns σ = some τ) (target : i.target? = none)
    (label : i.label? = none) (eq : max σ.length τ.length = depth) :
    Verifiable returns [i] σ τ depth [] :=
  of_piece (fun _ => (Piece.plain effect target label).congr eq (List.Subset.refl _))
    (by simp [label])

theorem append (h : Verifiable returns code σ τ depth bs)
    (h' : Verifiable returns code' τ ρ depth' bs') :
    Verifiable returns (code ++ code') σ ρ (max depth depth')
      (bs ++ bs'.map (code.length + ·)) := by
  obtain ⟨L, keys, piece⟩ := h
  obtain ⟨L', keys', piece'⟩ := h'
  refine ⟨L ++ L', by rw [map_append, keys, keys', labels_append], fun K hK => ?_⟩
  exact (piece K fun x hx => hK x (mem_append_left _ hx)).append
    (piece' K fun x hx => hK x (mem_append_right _ hx))

theorem start (h : Verifiable returns code [] τ depth bs) :
    Verifiable returns code [] τ depth (0 :: bs) := by
  obtain ⟨L, keys, piece⟩ := h
  exact ⟨L, keys, fun K hK => (piece K hK).start⟩

section

variable {test first second : List Instruction} {depth'' : Nat}

theorem depth_pos {t : OperandType} (h : Verifiable returns code σ (t :: τ) depth bs) :
    1 ≤ depth := by
  obtain ⟨L, -, piece⟩ := h
  obtain ⟨ss, -, peak, -⟩ := piece (fun _ _ => True) fun _ _ => trivial
  have := peak.le (t :: τ) (by simp)
  simp only [length_cons] at this
  omega

theorem testing (h : Verifiable returns test [] [.int] depth [])
    (h' : Verifiable returns first [] [] depth' bs)
    (h'' : Verifiable returns second [] [] depth'' bs') (pre mid post : List Instruction)
    (none : labels mid = [])
    (leads : ∀ K : Label → StackType → Prop, (∀ l ∈ labels pre ++ labels post, K l []) →
      Piece returns K pre [] [] 0 [] ∧ Piece returns K mid [] [] 0 [] ∧
        Piece returns K post [] [] 0 []) (l : Label) :
    Verifiable returns
      (pre ++ (test ++ .branch .eq l :: (first ++ (mid ++ .label l :: (second ++ post))))) [] []
      (max depth (max depth' depth''))
      (bs.map (pre.length + test.length + 1 + ·) ++
        bs'.map (pre.length + test.length + 1 + first.length + mid.length + 1 + ·)) := by
  have pos := h.depth_pos
  obtain ⟨L, keys, piece⟩ := h
  obtain ⟨L', keys', piece'⟩ := h'
  obtain ⟨L'', keys'', piece''⟩ := h''
  let empty (code : List Instruction) := (labels code).map fun l => (l, ([] : StackType))
  refine ⟨empty pre ++ (L ++ (L' ++ ((l, []) :: (L'' ++ empty post)))), ?_, fun K hK => ?_⟩
  · simp [empty, keys, keys', keys'', none, Instruction.label?, Function.comp_def]
  have hl : K l [] := hK (l, []) (by simp)
  have tested := piece K fun x hx => hK x (by simp [hx])
  have inner := piece' K fun x hx => hK x (by simp [hx])
  have other := piece'' K fun x hx => hK x (by simp [hx])
  obtain ⟨before, between, behind⟩ := leads K fun l hl => hK (l, []) (by
    rcases mem_append.mp hl with hl | hl <;> simp [empty, hl])
  refine (before.append (tested.append ((Piece.branch .eq hl).append (inner.append (between.append
    ((Piece.label hl).append (other.append behind))))))).congr ?_ ?_
  · simp only [length_nil]
    omega
  · simp [Function.comp_def, Nat.add_assoc]

end

theorem verified {body : List Instruction} {i : Instruction} (nodup : (labels (body ++ [i])).Nodup)
    (ends : i.isTerminal) (h : Verifiable returns (body ++ [i]) [] [] depth bs) :
    ∃ typing, Verified returns (body ++ [i]) bs typing ∧
      (∀ p < (body ++ [i]).length, (typing p).length ≤ depth) ∧
      ∃ p < (body ++ [i]).length, (typing p).length = depth := by
  obtain ⟨L, keys, piece⟩ := h
  obtain ⟨ss, flow, peak, empty⟩ := piece (fun l s => (l, s) ∈ L) fun x hx => hx
  let typing (p : Nat) : StackType := (ss ++ [[]])[p]?.getD []
  have known {p : Nat} {σ : StackType} (h : (ss ++ [[]])[p]? = some σ) : typing p = σ := by
    simp only [typing, h, Option.getD_some]
  -- The stacks at a label are the same for all who come there.
  have same {l : Label} {σ σ' : StackType} (h : (l, σ) ∈ L) (h' : (l, σ') ∈ L) : σ = σ' := by
    have distinct : (L.map Prod.fst).Nodup := keys ▸ nodup
    exact (Prod.mk.inj (inj_on_of_nodup_map distinct h h' rfl)).2
  refine ⟨typing, ⟨known flow.first, fun b hb => known (empty b hb), ?_, ?_, ?_⟩, ?_, ?_⟩
  · intro p instr hp
    obtain ⟨before, out, hbefore, effect, falls, target, -⟩ := flow.at_place hp
    refine ⟨out, by rw [known hbefore]; exact effect, ?_⟩
    rintro j ⟨instr', hp', next⟩
    cases hp.symm.trans hp'
    rcases next with ⟨goes, rfl⟩ | ⟨l, jump, hj⟩
    · exact known (falls goes)
    · obtain ⟨there, -, hthere, -, -, -, label⟩ := flow.at_place hj
      rw [known hthere]
      exact same (label l rfl) (target l jump)
  · intro p instr hp goes
    have lt := (List.getElem?_eq_some_iff.mp hp).1
    rw [length_append, length_singleton] at lt ⊢
    rcases Nat.lt_or_ge p body.length with inside | last
    · omega
    · rw [getElem?_append_right last, show p - body.length = 0 by omega] at hp
      cases hp
      rw [ends] at goes
      cases goes
  · intro p instr l hp jump
    obtain ⟨-, out, -, -, -, target, -⟩ := flow.at_place hp
    have defined : l ∈ labels (body ++ [i]) := by
      rw [← keys]
      exact mem_map_of_mem (target l jump)
    obtain ⟨instr', mem, hl⟩ := mem_filterMap.mp defined
    obtain ⟨j, hj⟩ := mem_iff_getElem?.mp mem
    cases instr' <;> simp only [Instruction.label?, reduceCtorEq, Option.some.injEq] at hl
    exact ⟨j, hl ▸ hj⟩
  · intro p hp
    have hp' : p < (ss ++ [[]]).length := by
      rw [length_append, flow.length_eq]
      omega
    rw [known (getElem?_eq_getElem hp')]
    exact peak.le _ (getElem_mem hp')
  · -- The stack behind the body is empty, as is the first one.
    obtain ⟨s, hs, rfl⟩ := peak.attained
    rcases mem_append.mp hs with hs | hs
    · obtain ⟨p, hp, rfl⟩ := mem_iff_getElem.mp hs
      refine ⟨p, flow.length_eq ▸ hp, ?_⟩
      rw [known (σ := ss[p])]
      rw [getElem?_append_left hp, getElem?_eq_getElem hp]
    · cases mem_singleton.mp hs
      refine ⟨0, by simp, ?_⟩
      rw [known flow.first]

end Verifiable

/-! ## Depths -/

def Instruction.pops : Instruction → Nat
  | .storeGlobal _ | .storeLocal _ | .pop | .branch .. | .retValue | .op .neg => 1
  | .op _ | .print .. => 2
  | .invoke _ arity _ => arity
  | _ => 0

def Instruction.pushes : Instruction → Nat
  | .loadGlobal _ | .loadLocal _ | .pushShort _ | .pushInt _ | .pushString _ | .pushBool _ => 1
  | .pushStream | .op _ => 1
  | .invoke _ _ result => if result then 1 else 0
  | _ => 0

/-- A control path from the beginning of a body leads to a place, and there the operand stack has a
depth. Each branch may be taken or not, and the operands themselves do not matter. -/
inductive Reaches (body : List Instruction) : Nat → Nat → Prop where
  | entry : Reaches body 0 0
  | next {i j d : Nat} {instr : Instruction} : Reaches body i d → body[i]? = some instr →
      Successor body i j → Reaches body j (d - instr.pops + instr.pushes)

theorem Reaches.straight (front rest : List Instruction)
    (goes : ∀ i ∈ front, i.isTerminal = false) :
    Reaches (front ++ rest) front.length
      (front.foldl (fun d i => d - i.pops + i.pushes) 0) := by
  induction front using List.reverseRecOn generalizing rest with
  | nil => exact .entry
  | append_singleton front i ih =>
    have here : (front ++ [i] ++ rest)[front.length]? = some i := by simp
    have before := ih (i :: rest) fun j hj => goes j (mem_append_left _ hj)
    rw [← singleton_append, ← append_assoc] at before
    rw [foldl_concat, length_append]
    exact .next before here ⟨i, here, .inl ⟨goes i (by simp), rfl⟩⟩

theorem length_of_takeInts {n : Nat} {σ τ : StackType} (h : takeInts n σ = some τ) :
    τ.length = σ.length - n := by
  induction n generalizing σ with
  | zero =>
    cases h
    rfl
  | succ n ih =>
    rcases σ with _ | ⟨_ | _ | _, σ⟩
    case cons.int => rw [ih h, length_cons, Nat.add_sub_add_right]
    all_goals cases h

theorem length_of_effect? {returns : Bool} {i : Instruction} {σ out : StackType}
    (h : i.effect? returns σ = some out) : out.length = σ.length - i.pops + i.pushes := by
  cases i with
  | invoke name arity result =>
    obtain ⟨τ, taken, rfl⟩ := Option.map_eq_some_iff.mp h
    have count : τ.length = σ.length - arity := length_of_takeInts taken
    cases result with
    | false => exact count
    | true =>
      show τ.length + 1 = σ.length - arity + 1
      rw [count]
  | op o =>
    rcases σ with _ | ⟨_ | _ | _, _ | ⟨_ | _ | _, σ⟩⟩ <;> cases o <;> cases h <;> rfl
  | print what newline =>
    rcases σ with _ | ⟨t, _ | ⟨_ | _ | _, σ⟩⟩
    case cons.cons.stream =>
      have h : (if t = what.operandType then some σ else none) = some out := h
      split at h <;> cases h
      rfl
    all_goals cases h
  | ret | retValue =>
    cases returns <;> rcases σ with _ | ⟨_ | _ | _, σ⟩ <;> cases h <;> rfl
  | storeGlobal _ | storeLocal _ | pop | branch _ _ =>
    rcases σ with _ | ⟨_ | _ | _, σ⟩ <;> cases h <;> rfl
  | _ =>
    cases h
    rfl

theorem Verified.of_reaches {returns : Bool} {body : List Instruction} {bs : List Nat}
    {typing : Nat → StackType} (h : Verified returns body bs typing) (some_code : body ≠ [])
    {i d : Nat} (path : Reaches body i d) : d = (typing i).length ∧ i < body.length := by
  induction path with
  | entry => exact ⟨by rw [h.entry]; rfl, length_pos_iff.mpr some_code⟩
  | @next i j d instr _ hi succ ih =>
    obtain ⟨out, effect, agree⟩ := h.step i instr hi
    refine ⟨by rw [agree j succ, length_of_effect? effect, ← ih.1], ?_⟩
    obtain ⟨instr', hi', ⟨goes, rfl⟩ | ⟨l, -, hj⟩⟩ := succ
    · exact h.falls i instr' hi' goes
    · exact (List.getElem?_eq_some_iff.mp hj).1

end Jasm.Assembly
