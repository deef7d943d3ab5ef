/-
The command line of `ofldongle.c`: which command `process_cmd` carries out.

`parseCmd` is the chain of conditions of `process_cmd`, `documented` what is
to be done with a line by the word it begins with: a command of the help text
and the README, which spell `:chan_hop ` what the code calls `:chanhop `, or
that spelling of the code. The chain searches the whole line for each name in
turn, so the two agree exactly when the first name of the chain that occurs in
the line stands at its beginning, and no `:chan_hop ` does there
(`parseCmd_eq_documented_iff`).
-/
import OflMetrics.Embed.CString

namespace OflMetrics

open Embed.CString

/-- A branch of `process_cmd`, with the argument it works on. -/
inductive Command where
  | stopDump
  | help
  | dumpHex
  | dumpHuman
  | channel (ch : Int)
  | chanhop (tmp : Int)
  | selftestXtea
  | showConfig
  | send (cmd2 : List UInt8)
  | info
  | unknown
  deriving DecidableEq

/-- The conditions of `process_cmd`, in order. -/
def parseCmd (monitorMode : UInt8) (cmd : List UInt8) : Command :=
  if monitorMode ≠ 0 ∧ cmd = [] then .stopDump
  else if ascii "?" <+: cmd then .help
  else if ascii ":dump_hex" <:+: cmd then .dumpHex
  else if ascii ":dump_human" <:+: cmd then .dumpHuman
  else if ascii ":channel " <:+: cmd ∧ cmd.length > 9 then .channel (atoi (cmd.drop 9))
  else if ascii ":chanhop " <:+: cmd ∧ cmd.length > 9 then .chanhop (atoi (cmd.drop 9))
  else if ascii ":selftest_xtea" <:+: cmd then .selftestXtea
  else if ascii ":show_config" <:+: cmd then .showConfig
  else if ascii ":send " <:+: cmd then .send (cmd.drop 6)
  else if ascii ":info" <:+: cmd then .info
  else .unknown

/-- A command with a name: the lines it is for are longer than `longer`. -/
structure Rule where
  name : List UInt8
  longer : Nat
  carry : List UInt8 → Command

/-- The named commands, in the order of `process_cmd`. -/
def rules : List Rule :=
  [{ name := ascii ":dump_hex", longer := 0, carry := fun _ => .dumpHex },
    { name := ascii ":dump_human", longer := 0, carry := fun _ => .dumpHuman },
    { name := ascii ":channel ", longer := 9, carry := fun cmd => .channel (atoi (cmd.drop 9)) },
    { name := ascii ":chanhop ", longer := 9, carry := fun cmd => .chanhop (atoi (cmd.drop 9)) },
    { name := ascii ":selftest_xtea", longer := 0, carry := fun _ => .selftestXtea },
    { name := ascii ":show_config", longer := 0, carry := fun _ => .showConfig },
    { name := ascii ":send ", longer := 0, carry := fun cmd => .send (cmd.drop 6) },
    { name := ascii ":info", longer := 0, carry := fun _ => .info }]

/-- The name is somewhere in the line. -/
def Rule.Occurs (r : Rule) (cmd : List UInt8) : Prop := r.name <:+: cmd ∧ r.longer < cmd.length

/-- The line begins with the name. -/
def Rule.Begins (r : Rule) (cmd : List UInt8) : Prop := r.name <+: cmd ∧ r.longer < cmd.length

instance (r : Rule) (cmd : List UInt8) : Decidable (r.Occurs cmd) := inferInstanceAs (Decidable (_ ∧ _))
instance (r : Rule) (cmd : List UInt8) : Decidable (r.Begins cmd) := inferInstanceAs (Decidable (_ ∧ _))

/-- The command of the first rule that meets `p`. -/
def carryFirst (p : Rule → Prop) [DecidablePred p] (cmd : List UInt8) : List Rule → Command
  | [] => .unknown
  | r :: rs => if p r then r.carry cmd else carryFirst p cmd rs

/-- The command the help text and the README call `:chan_hop XX`; `process_cmd`
does not know the name. -/
def chanHop : Rule := { name := ascii ":chan_hop ", longer := 10, carry := fun cmd => .chanhop (atoi (cmd.drop 10)) }

/-- The commands under the names of the help text, and of `process_cmd`. -/
def documentedRules : List Rule := rules ++ [chanHop]

/-- What is to be done with a line: the command is the one whose name the line
begins with. -/
def documented (monitorMode : UInt8) (cmd : List UInt8) : Command :=
  if monitorMode ≠ 0 ∧ cmd = [] then .stopDump
  else if ascii "?" <+: cmd then .help
  else carryFirst (·.Begins cmd) cmd documentedRules

/-- The name that `process_cmd` finds in the line, the first of its chain. -/
def foundName (cmd : List UInt8) : Option (List UInt8) := (rules.find? (·.Occurs cmd)).map Rule.name

/-- The first of the names that occurs in the line, if any does, stands at its
beginning. -/
def FirstLeads (cmd : List UInt8) : List Rule → Prop
  | [] => True
  | r :: rs => if r.Occurs cmd then r.Begins cmd else FirstLeads cmd rs

instance FirstLeads.decidable (cmd : List UInt8) : ∀ rs, Decidable (FirstLeads cmd rs)
  | [] => .isTrue trivial
  | r :: rs =>
    have := FirstLeads.decidable cmd rs
    inferInstanceAs (Decidable (if r.Occurs cmd then r.Begins cmd else FirstLeads cmd rs))

/-- What `process_cmd` finds is what the line begins with; behind a `:chan_hop `
that it does not know, it can be a `:chanhop ` alone. -/
def TakenRight (cmd : List UInt8) : Prop :=
  if chanHop.Begins cmd then foundName cmd = some (ascii ":chanhop ") else FirstLeads cmd rules

instance (cmd : List UInt8) : Decidable (TakenRight cmd) :=
  inferInstanceAs (Decidable (if chanHop.Begins cmd then _ else _))

/-! ## The chain -/

theorem infix_and_pos {name cmd : List UInt8} (hname : name ≠ []) :
    name <:+: cmd ∧ 0 < cmd.length ↔ name <:+: cmd := by
  constructor
  · exact fun h => h.1
  · intro h
    exact ⟨h, Nat.lt_of_lt_of_le (List.length_pos_iff.mpr hname) h.length_le⟩

/-- The chain of `process_cmd` takes the first rule whose name occurs. -/
theorem parseCmd_eq (monitorMode : UInt8) (cmd : List UInt8) :
    parseCmd monitorMode cmd =
      if monitorMode ≠ 0 ∧ cmd = [] then .stopDump
      else if ascii "?" <+: cmd then .help
      else carryFirst (·.Occurs cmd) cmd rules := by
  have hhex := @infix_and_pos (ascii ":dump_hex") cmd (by decide)
  have hhuman := @infix_and_pos (ascii ":dump_human") cmd (by decide)
  have hxtea := @infix_and_pos (ascii ":selftest_xtea") cmd (by decide)
  have hconfig := @infix_and_pos (ascii ":show_config") cmd (by decide)
  have hsend := @infix_and_pos (ascii ":send ") cmd (by decide)
  have hinfo := @infix_and_pos (ascii ":info") cmd (by decide)
  simp only [parseCmd, carryFirst, rules, Rule.Occurs, hhex, hhuman, hxtea, hconfig, hsend, hinfo, gt_iff_lt]

theorem Rule.Begins.occurs {r : Rule} {cmd : List UInt8} (h : r.Begins cmd) : r.Occurs cmd := ⟨h.1.isInfix, h.2⟩

/-- No name begins another. -/
theorem rules_apart : documentedRules.Pairwise fun r r' => ¬ r.name <+: r'.name ∧ ¬ r'.name <+: r.name := by decide

theorem rules_not_help : ∀ r ∈ documentedRules, ¬ ascii "?" <+: r.name ∧ ¬ r.name <+: ascii "?" := by decide

/-- Different rules carry out different commands. -/
theorem rules_carry (cmd : List UInt8) :
    rules.Pairwise (fun r r' => r.carry cmd ≠ r'.carry cmd) ∧ ∀ r ∈ rules, r.carry cmd ≠ .unknown := by
  simp [rules]

theorem carryFirst_cases (p : Rule → Prop) [DecidablePred p] (cmd : List UInt8) (rs : List Rule) :
    carryFirst p cmd rs = .unknown ∨ ∃ r ∈ rs, carryFirst p cmd rs = r.carry cmd := by
  induction rs with
  | nil => exact .inl rfl
  | cons r rs ih =>
    by_cases h : p r
    · exact .inr ⟨r, List.mem_cons_self, if_pos h⟩
    · rw [carryFirst, if_neg h]
      rcases ih with hunknown | ⟨r', hr', heq⟩
      · exact .inl hunknown
      · exact .inr ⟨r', List.mem_cons_of_mem _ hr', heq⟩

theorem carryFirst_eq_iff {cmd : List UInt8} {rs : List Rule}
    (hne : rs.Pairwise fun r r' => r.carry cmd ≠ r'.carry cmd) (hunknown : ∀ r ∈ rs, r.carry cmd ≠ .unknown) :
    carryFirst (·.Occurs cmd) cmd rs = carryFirst (·.Begins cmd) cmd rs ↔ FirstLeads cmd rs := by
  induction rs with
  | nil => exact iff_of_true rfl trivial
  | cons r rs ih =>
    rw [List.pairwise_cons] at hne
    have hrest := ih hne.2 fun r' h => hunknown r' (List.mem_cons_of_mem _ h)
    rw [carryFirst, carryFirst, FirstLeads]
    by_cases hoccurs : r.Occurs cmd
    · rw [if_pos hoccurs, if_pos hoccurs]
      by_cases hbegins : r.Begins cmd
      · rw [if_pos hbegins]
        exact iff_of_true rfl hbegins
      · rw [if_neg hbegins]
        -- The other rules carry out something else.
        refine iff_of_false (fun heq => ?_) hbegins
        rcases carryFirst_cases (·.Begins cmd) cmd rs with h | ⟨r', hr', h⟩
        · exact hunknown r List.mem_cons_self (heq.trans h)
        · exact hne.1 r' hr' (heq.trans h)
    · rw [if_neg hoccurs, if_neg hoccurs, if_neg fun h => hoccurs (Rule.Begins.occurs h)]
      exact hrest

theorem carryFirst_eq_find (p : Rule → Prop) [DecidablePred p] (cmd : List UInt8) (rs : List Rule) :
    carryFirst p cmd rs = ((rs.find? fun r => decide (p r)).map fun r => r.carry cmd).getD .unknown := by
  induction rs with
  | nil => rfl
  | cons r rs ih =>
    rw [carryFirst, List.find?_cons]
    by_cases h : p r
    · rw [if_pos h, decide_eq_true h]
      rfl
    · rw [if_neg h, decide_eq_false h, ih]

theorem carryFirst_append_other (p : Rule → Prop) [DecidablePred p] (cmd : List UInt8) (rs : List Rule) {r : Rule} (h : ¬ p r) :
    carryFirst p cmd (rs ++ [r]) = carryFirst p cmd rs := by
  induction rs with
  | nil => exact if_neg h
  | cons r' rs ih => rw [List.cons_append, carryFirst, carryFirst, ih]

/-! ## What is documented -/

/-- At most one name begins a line. -/
theorem carryFirst_of_begins {cmd : List UInt8} {rs : List Rule}
    (hapart : rs.Pairwise fun r r' => ¬ r.name <+: r'.name ∧ ¬ r'.name <+: r.name) {r : Rule} (hr : r ∈ rs)
    (h : r.Begins cmd) : carryFirst (·.Begins cmd) cmd rs = r.carry cmd := by
  induction rs with
  | nil => cases hr
  | cons r₀ rs ih =>
    rw [List.pairwise_cons] at hapart
    rcases List.mem_cons.mp hr with rfl | hmem
    · exact if_pos h
    · have hother : ¬ r₀.Begins cmd := by
        intro h₀
        rcases List.prefix_or_prefix_of_prefix h₀.1 h.1 with hp | hp
        · exact (hapart.1 r hmem).1 hp
        · exact (hapart.1 r hmem).2 hp
      rw [carryFirst, if_neg hother]
      exact ih hapart.2 hmem

/-- A line that begins with a name is neither empty nor a question. -/
theorem not_help_of_begins {cmd : List UInt8} {r : Rule} (hr : r ∈ documentedRules) (h : r.Begins cmd) :
    cmd ≠ [] ∧ ¬ ascii "?" <+: cmd := by
  refine ⟨fun hnil => ?_, fun hq => ?_⟩
  · rw [hnil] at h
    exact absurd h.2 (Nat.not_lt_zero _)
  · rcases List.prefix_or_prefix_of_prefix hq h.1 with hp | hp
    · exact (rules_not_help r hr).1 hp
    · exact (rules_not_help r hr).2 hp

theorem documented_of_begins (monitorMode : UInt8) {cmd : List UInt8} {r : Rule} (hr : r ∈ documentedRules)
    (h : r.Begins cmd) : documented monitorMode cmd = r.carry cmd := by
  obtain ⟨hnil, hhelp⟩ := not_help_of_begins hr h
  rw [documented, if_neg fun hstop => hnil hstop.2, if_neg hhelp]
  exact carryFirst_of_begins rules_apart hr h

theorem mem_documentedRules {r : Rule} (h : r ∈ rules) : r ∈ documentedRules := List.mem_append_left _ h

theorem chanHop_mem : chanHop ∈ documentedRules := List.mem_append_right _ (List.mem_singleton.mpr rfl)

/-! ## The chain and what is documented -/

/-- The blank behind `:chan_hop` does not count. -/
theorem chanHop_atoi {cmd : List UInt8} (h : chanHop.Begins cmd) : atoi (cmd.drop 10) = atoi (cmd.drop 9) := by
  obtain ⟨rest, rfl⟩ := h.1
  rfl

theorem carry_eq_chanhop_iff {cmd : List UInt8} {r : Rule} (hr : r ∈ rules) :
    r.carry cmd = .chanhop (atoi (cmd.drop 9)) ↔ r.name = ascii ":chanhop " := by
  have hnames : ascii ":dump_hex" ≠ ascii ":chanhop " ∧ ascii ":dump_human" ≠ ascii ":chanhop " ∧
      ascii ":channel " ≠ ascii ":chanhop " ∧ ascii ":selftest_xtea" ≠ ascii ":chanhop " ∧
      ascii ":show_config" ≠ ascii ":chanhop " ∧ ascii ":send " ≠ ascii ":chanhop " ∧ ascii ":info" ≠ ascii ":chanhop " := by
    decide
  simp only [rules, List.mem_cons, List.not_mem_nil, or_false] at hr
  rcases hr with rfl | rfl | rfl | rfl | rfl | rfl | rfl | rfl <;> simp [hnames]

/-- Behind a `:chan_hop ` the chain carries out the right thing if it finds `:chanhop `. -/
theorem carryFirst_chanhop_iff (cmd : List UInt8) :
    carryFirst (·.Occurs cmd) cmd rules = .chanhop (atoi (cmd.drop 9)) ↔ foundName cmd = some (ascii ":chanhop ") := by
  rw [carryFirst_eq_find, foundName]
  cases hfind : rules.find? (·.Occurs cmd) with
  | none => exact iff_of_false Command.noConfusion (fun h => nomatch h)
  | some r =>
    simp only [Option.map_some, Option.getD_some, Option.some.injEq]
    exact carry_eq_chanhop_iff (List.mem_of_find?_eq_some hfind)

/-- **When the chain carries out what is documented.** -/
theorem parseCmd_eq_documented_iff (monitorMode : UInt8) (cmd : List UInt8) :
    parseCmd monitorMode cmd = documented monitorMode cmd ↔ ascii "?" <+: cmd ∨ TakenRight cmd := by
  by_cases hhop : chanHop.Begins cmd
  · obtain ⟨hnil, hhelp⟩ := not_help_of_begins chanHop_mem hhop
    have hcarry : chanHop.carry cmd = .chanhop (atoi (cmd.drop 9)) := congrArg Command.chanhop (chanHop_atoi hhop)
    rw [documented_of_begins monitorMode chanHop_mem hhop, hcarry, parseCmd_eq, if_neg fun hstop => hnil hstop.2,
      if_neg hhelp, carryFirst_chanhop_iff, TakenRight, if_pos hhop]
    exact (or_iff_right hhelp).symm
  · obtain ⟨hne, hunknown⟩ := rules_carry cmd
    have hchain := carryFirst_eq_iff hne hunknown
    rw [parseCmd_eq, documented, documentedRules, carryFirst_append_other _ _ _ hhop, TakenRight, if_neg hhop]
    by_cases hstop : monitorMode ≠ 0 ∧ cmd = []
    · have hnone : FirstLeads [] rules := by decide
      rw [if_pos hstop, if_pos hstop, hstop.2]
      exact iff_of_true rfl (.inr hnone)
    · rw [if_neg hstop, if_neg hstop]
      by_cases hhelp : ascii "?" <+: cmd
      · rw [if_pos hhelp, if_pos hhelp]
        exact iff_of_true rfl (.inl hhelp)
      · rw [if_neg hhelp, if_neg hhelp, hchain]
        simp only [hhelp, false_or]

/-- A line that begins with the first of the names that occurs in it. -/
theorem parseCmd_of_leads (monitorMode : UInt8) {cmd : List UInt8} (hleads : FirstLeads cmd rules) {r : Rule}
    (hr : r ∈ rules) (h : r.Begins cmd) (hhop : ¬ chanHop.Begins cmd) : parseCmd monitorMode cmd = r.carry cmd := by
  rw [← documented_of_begins monitorMode (mem_documentedRules hr) h]
  refine (parseCmd_eq_documented_iff monitorMode cmd).mpr (.inr ?_)
  rwa [TakenRight, if_neg hhop]

end OflMetrics
