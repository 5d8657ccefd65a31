import Std.Data.String.ToNat
import Jasm.Diagnostic.Sarif
import Jasm.Proofs.Diagnostic.Sorting

/-!
# Rules of a log

The results of a log name rules by their ids. Many codes have one id, but what they stand for is the
same, so the rules of a log are told by the ids that occur in it, whatever the order of the results.
-/

namespace Jasm

open List

namespace Code

variable {c c' : Code}

theorem title_of_outside (h : ∀ area ∈ [2, 3, 4, 5, 6], c.number.toNat / 1000 ≠ area) :
    c.title = "Unknown error" := by
  simp only [forall_mem_cons] at h
  unfold title
  split <;> first | rfl | omega

theorem title_eq_of_id_eq (h : c.id = c'.id) : c.title = c'.title := by
  have of_digits (h : Nat.toDigits 10 c.number.toNat = Nat.toDigits 10 c'.number.toNat) :
      c.title = c'.title := by
    rw [title, title, Nat.repr_injective (congrArg String.ofList h)]
  unfold id at h
  replace h := congrArg String.toList h
  -- texts of two areas differ in their first characters
  split at h <;> split at h <;> simp [toString] at h
  case h_6 => rw [title_of_outside (by simp_all), title_of_outside (by simp_all)]
  all_goals exact of_digits h

end Code

/-! ## Reading a log -/

namespace Json

def field (name : String) : Json → Json
  | .obj fields => (fields.lookup name).getD .null
  | _ => .null

def items : Json → List Json
  | .arr items => items
  | _ => []

def string : Json → String
  | .str s => s
  | _ => ""

theorem items_optionalList (name : String) (values : List Json) :
    ((Json.obj (optionalList name values)).field name).items = values := by
  unfold optionalList
  cases values with
  | nil => rfl
  | cons v rest => simp [field, items]

end Json

namespace Bag

def loggedRun (log : Json) : Json := (log.field "runs").items.headD .null

/-- The rules of a log: ids with descriptions. -/
def loggedRules (log : Json) : List (String × String) :=
  ((((loggedRun log).field "tool").field "driver").field "rules").items.map fun r =>
    ((r.field "id").string, ((r.field "shortDescription").field "text").string)

def loggedResults (log : Json) : List Json := ((loggedRun log).field "results").items

/-- The ids of rules that the results of a log name. -/
def loggedIds (log : Json) : List String :=
  (loggedResults log).map fun r => (r.field "ruleId").string

/-- What a log says about the success of the run. -/
def loggedSuccess (log : Json) : Json :=
  (((loggedRun log).field "invocations").items.headD .null).field "executionSuccessful"

/-- The findings of a bag, if there is one. -/
def findings (b : Option Bag) : List Diagnostic := b.elim [] (·.items.toList)

variable (cwd : String) (info : RunInfo) (b : Option Bag)

theorem loggedRules_toLog : loggedRules (toLog cwd info b) = logRules (findings b) := by
  have read (rules : List (String × String)) : (((Json.obj ([("name", .str info.tool)] ++
      Json.optional "version" info.version ++
      Json.optionalList "rules" (rules.map ruleJson))).field "rules").items.map fun r =>
        ((r.field "id").string, ((r.field "shortDescription").field "text").string)) = rules := by
    have each : ∀ rule, (((ruleJson rule).field "id").string,
        (((ruleJson rule).field "shortDescription").field "text").string) = rule := fun _ => rfl
    rw [show ((Json.obj _).field "rules").items = rules.map ruleJson from ?_, map_map]
    · exact (map_congr_left fun rule _ => each rule).trans (map_id _)
    · refine Eq.trans ?_ (Json.items_optionalList "rules" _)
      by_cases h : info.version = "" <;>
        simp [Json.field, Json.optional, h, lookup_cons]
  cases b <;> exact read _

theorem loggedSuccess_toLog : loggedSuccess (toLog cwd info b) =
    .bool !(findings b).any (·.severity.isError) := by
  have read (success : Bool) : (Json.obj (Json.optionalList "arguments" (info.args.map Json.str) ++
      [("executionSuccessful", .bool success)])).field "executionSuccessful" = .bool success := by
    unfold Json.optionalList
    split <;> simp [Json.field, lookup_cons]
  cases b with
  | none => exact read true
  | some b => exact (read _).trans (by simp [findings, hasErrors])

theorem loggedResults_toLog :
    loggedResults (toLog cwd info b) = (findings b).map (logResult cwd) := by
  cases b <;> rfl

theorem loggedIds_toLog : loggedIds (toLog cwd info b) = (findings b).map (·.code.id) := by
  rw [loggedIds, loggedResults_toLog, map_map]
  rfl

theorem eq_of_rule_id {ds : List Diagnostic} :
    ∀ r ∈ ds.reverse.map (fun d => (d.code.id, d.code.title)),
      ∀ r' ∈ ds.reverse.map (fun d => (d.code.id, d.code.title)), r.1 = r'.1 → r = r' := by
  simp only [forall_mem_map]
  intro d _ d' _ same
  exact Prod.ext same (Code.title_eq_of_id_eq same)

theorem mem_logRules (ds : List Diagnostic) (r : String × String) :
    r ∈ logRules ds ↔ ∃ d ∈ ds, (d.code.id, d.code.title) = r := by
  rw [logRules, mem_sortBy eq_of_rule_id]
  simp

theorem logRules_eq_of_mem_iff {ds ds' : List Diagnostic} (h : ∀ d, d ∈ ds ↔ d ∈ ds') :
    logRules ds = logRules ds' := by
  refine sortBy_eq eq_of_rule_id pairwise_sortBy fun r => ?_
  rw [mem_logRules]
  simp [h]

/-- The rules of a log come in the order of their ids. They are the rules that the results name,
each with what all codes of its id stand for, and depend on no order of the findings. The results
are the findings, one by one, each with its code, level, message and place, and the run was
successful unless an error is among them. -/
theorem log_names_its_rules (cwd : String) (info : RunInfo) (b : Option Bag) :
    let log := toLog cwd info b
    (loggedRules log).Pairwise (·.1 < ·.1) ∧
    (∀ id, id ∈ (loggedRules log).map (·.1) ↔ id ∈ loggedIds log) ∧
    (∀ r ∈ loggedRules log, ∀ c : Code, c.id = r.1 → r.2 = c.title) ∧
    (loggedResults log = (findings b).map (fun d => .obj ([("ruleId", .str d.code.id),
        ("level", .str (logLevel d.severity)), ("message", logMessage d.message d.rawMessage)] ++
        logLocations cwd d.place d.rawPath)) ∧
      loggedIds log = (findings b).map (·.code.id)) ∧
    (loggedSuccess log = .bool false ↔ ∃ d ∈ findings b, d.severity.isError) ∧
    ∀ b', (findings b').Perm (findings b) → loggedRules (toLog cwd info b') = loggedRules log := by
  intro log
  simp only [log, loggedRules_toLog, loggedIds_toLog, loggedResults_toLog, loggedSuccess_toLog]
  refine ⟨pairwise_sortBy, fun id => ?_, fun r hr c same => ?_, ⟨rfl, by simp⟩, by simp,
    fun b' perm => logRules_eq_of_mem_iff fun _ => perm.mem_iff⟩
  · simp [mem_logRules]
  · obtain ⟨d, -, rfl⟩ := (mem_logRules _ r).mp hr
    exact Code.title_eq_of_id_eq same.symm

end Bag

end Jasm
