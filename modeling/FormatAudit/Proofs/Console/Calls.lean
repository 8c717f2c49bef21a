import FormatAudit.Proofs.Console.Codes
import FormatAudit.Proofs.Session.Ensures

/-! Sequences of calls that print: messages, violations, section headers and whole reports, each with
settings of its own. Without colour, or away from a terminal, they print no code; and the codes are
all that colour adds to messages and violations. Titles are taken as they are, so markup in them is
out of account. -/
namespace FormatAudit

namespace Run

variable {h : Host} {x : Run Unit} {ts us : List Text}

/-- All that a computation does is to print some texts, for which consoles may have to be made. -/
def Prints (h : Host) (x : Run Unit) (ts : List Text) : Prop :=
  ∀ s, ∃ consoles,
    x.exec h s = (.ok (), { s with printed := s.printed ++ ts, consoles := consoles })

theorem prints_pure : Prints h (pure ()) [] := by
  intro s
  refine ⟨s.consoles, ?_⟩
  rw [List.append_nil]
  rfl

theorem prints_print (t : Text) : Prints h (print t) [t] :=
  fun s => ⟨s.consoles, rfl⟩

theorem prints_console_bind {color emoji : Bool} {f : Console.Setup → Run Unit}
    (hf : Prints h (f ⟨color, emoji, h.isTerminal⟩) ts) :
    Prints h (console color emoji >>= f) ts := by
  intro s
  rw [exec_bind, exec_console]
  exact hf _

theorem Prints.bind {f : Unit → Run Unit} (hx : Prints h x ts) (hf : Prints h (f ()) us) :
    Prints h (x >>= f) (ts ++ us) := by
  intro s
  obtain ⟨made, hx⟩ := hx s
  rw [exec_bind, hx, ← List.append_assoc]
  exact hf { s with printed := s.printed ++ ts, consoles := made }

theorem prints_forIn {α : Type} {f : α → Run Unit} {g : α → List Text} (items : List α)
    (hf : ∀ a, Prints h (f a) (g a)) :
    Prints h (forIn items () fun a _ => f a >>= fun _ => pure (.yield ())) (items.flatMap g) := by
  induction items with
  | nil => exact prints_pure
  | cons a items ih =>
    rw [List.forIn_cons, bind_assoc, List.flatMap_cons]
    refine Prints.bind (hf a) ?_
    rw [pure_bind]
    exact ih

theorem prints_forIn_map {α : Type} {f : α → Run Unit} {g : α → Text} (items : List α)
    (hf : ∀ a, Prints h (f a) [g a]) :
    Prints h (forIn items () fun a _ => f a >>= fun _ => pure (.yield ())) (items.map g) := by
  rw [List.map_eq_flatMap]
  exact prints_forIn items hf

end Run

structure Violation.IsPlain (v : Violation) : Prop where
  path : Console.IsPlain v.path
  message : Console.IsPlain v.message

structure Report.IsPlain (r : Report) : Prop where
  name : Console.IsPlain r.name
  summary : Console.IsPlain r.summary
  violations : ∀ v ∈ r.findings.violations, v.IsPlain

namespace Console

open Run

/-! ### Messages and violations -/

/-- What is laid out alike with colour and without. -/
inductive Block where
  | message (level : Level) (text : Text) (emoji : Bool)
  | violation (severity : Severity) (v : Violation) (emoji : Bool)

/-- Colour is asked for, or left to the terminal, and the output is a terminal. -/
def isColored (color : Option Bool) (isTerminal : Bool) : Bool :=
  color.getD isTerminal && isTerminal

namespace Block

def run (color : Option Bool) : Block → Run Unit
  | message level t emoji => say level t emoji color
  | violation severity v emoji => do
    let console ← Run.console (color.getD (← read).isTerminal) emoji
    showViolation console severity v

def text (color : Option Bool) (isTerminal : Bool) : Block → Text
  | message level t emoji => Console.message level t emoji (isColored color isTerminal)
  | violation severity v _ =>
    printed (isColored color isTerminal) (violationSpans v severity (color.getD isTerminal))

def IsPlain : Block → Prop
  | message _ t _ => Console.IsPlain t
  | violation _ v _ => v.IsPlain

theorem prints_run (h : Host) (color : Option Bool) (b : Block) :
    Prints h (b.run color) [b.text color h.isTerminal] := by
  cases b with
  | message level t emoji => exact fun s => ⟨_, exec_say level t emoji color⟩
  | violation severity v emoji =>
    intro s
    rw [run, exec_read_bind]
    exact prints_console_bind (prints_print _) s

variable {color color' : Option Bool} {isTerminal isTerminal' : Bool} {b : Block}

theorem isPlain_text (hb : b.IsPlain) (hoff : isColored color isTerminal = false) :
    Console.IsPlain (b.text color isTerminal) := by
  cases b with
  | message level t emoji =>
    rw [text, hoff]
    exact isPlain_message level hb emoji
  | violation severity v emoji =>
    rw [text, hoff]
    exact isPlain_printed (isPlain_violationSpans hb.path hb.message severity _)

theorem undresses_message (level : Level) {t : Text} (ht : Console.IsPlain t) (emoji : Bool) :
    Undresses (Console.message level t emoji true) (Console.message level t emoji false) := by
  refine undresses_printed (List.forall_mem_singleton.2 ⟨?_, isPlain_append.2 ⟨?_, ht⟩⟩)
  · rintro codes ⟨⟩
    cases level <;> decide
  · cases emoji
    · exact List.not_mem_nil
    · cases level <;> decide

theorem isProper_violationSpans {v : Violation} (hv : v.IsPlain) (severity : Severity) :
    ∀ s ∈ violationSpans v severity true, s.IsProper := by
  intro s hs
  refine ⟨fun codes hcodes => ?_, isPlain_violationSpans hv.path hv.message severity true s hs⟩
  simp only [violationSpans, List.mem_cons, List.not_mem_nil, or_false] at hs
  obtain rfl | rfl | rfl := hs
  · obtain rfl := Option.some.inj hcodes
    cases severity <;> decide
  · obtain rfl := Option.some.inj hcodes
    decide
  · cases hcodes

theorem undresses_text (hb : b.IsPlain) (hon : isColored color isTerminal = true)
    (hoff : isColored color' isTerminal' = false) :
    Undresses (b.text color isTerminal) (b.text color' isTerminal') := by
  cases b with
  | message level t emoji =>
    rw [text, text, hon, hoff]
    exact undresses_message level hb emoji
  | violation severity v emoji =>
    have hstyles : color.getD isTerminal = true := (Bool.and_eq_true_iff.1 hon).1
    -- without colour the styles of the spans do not matter
    have hbare : printed false (violationSpans v severity (color'.getD isTerminal')) =
        printed false (violationSpans v severity true) := by
      cases color'.getD isTerminal' <;> rfl
    rw [text, text, hon, hoff, hstyles, hbare]
    exact undresses_printed (isProper_violationSpans hb severity)

end Block

/-! ### Reports -/

def reportTexts (output : Output) (isTerminal : Bool) (r : Report) : List Text :=
  if r.findings.violations = [] then []
  else header r.name output.color isTerminal :: Severity.all.flatMap fun s =>
    (r.findings.ofSeverity s).map fun v =>
      (Block.violation s v output.emoji).text (some output.color) isTerminal

theorem prints_header (h : Host) (title : Text) (color : Bool) :
    Prints h (Run.header title color) [header title color h.isTerminal] :=
  prints_console_bind (prints_print _)

theorem prints_showReport (h : Host) (output : Output) (r : Report) :
    Prints h (showReport ⟨output.color, output.emoji, h.isTerminal⟩ r)
      (reportTexts output h.isTerminal r) := by
  unfold showReport reportTexts
  split
  · exact prints_pure
  · refine (prints_header h r.name output.color).bind ?_
    rw [bind_pure_unit]
    refine prints_forIn _ fun s => ?_
    exact prints_forIn_map _ fun v => prints_print _

def reportsTexts (reports : List Report) (output : Output) (isTerminal : Bool) : List Text :=
  reports.flatMap (reportTexts output isTerminal) ++
    header "Summary".toList output.color isTerminal ::
      reports.map fun r => printed false [⟨none, r.summary⟩]

theorem prints_showReports (h : Host) (reports : List Report) (output : Output) :
    Prints h (showReports reports output) (reportsTexts reports output h.isTerminal) := by
  refine prints_console_bind ?_
  refine (prints_forIn reports fun r => prints_showReport h output r).bind ?_
  refine (prints_header h "Summary".toList output.color).bind ?_
  rw [bind_pure_unit]
  exact prints_forIn_map reports fun _ => prints_print _

theorem isPlain_reportTexts {output : Output} {isTerminal : Bool} {r : Report} (hr : r.IsPlain)
    (hoff : (output.color && isTerminal) = false) :
    ∀ t ∈ reportTexts output isTerminal r, IsPlain t := by
  intro t ht
  unfold reportTexts at ht
  split at ht
  · cases ht
  · obtain rfl | ht := List.mem_cons.1 ht
    · exact isPlain_header hr.name hoff
    · obtain ⟨s, -, ht⟩ := List.mem_flatMap.1 ht
      obtain ⟨v, hv, rfl⟩ := List.mem_map.1 ht
      refine Block.isPlain_text (b := .violation s v output.emoji) (hr.violations v ?_) hoff
      cases s
      · exact List.mem_append_left _ hv
      · exact List.mem_append_right _ hv

/-! ### Calls -/

inductive Call where
  | block (color : Option Bool) (b : Block)
  | header (color : Bool) (title : Text)
  | reports (output : Output) (reports : List Report)

namespace Call

def run : Call → Run Unit
  | block color b => b.run color
  | header color title => Run.header title color
  | reports output rs => showReports rs output

def texts (isTerminal : Bool) : Call → List Text
  | block color b => [b.text color isTerminal]
  | header color title => [Console.header title color isTerminal]
  | reports output rs => reportsTexts rs output isTerminal

def isColored (isTerminal : Bool) : Call → Bool
  | block color _ => Console.isColored color isTerminal
  | header color _ => Console.isColored (some color) isTerminal
  | reports output _ => Console.isColored (some output.color) isTerminal

def IsPlain : Call → Prop
  | block _ b => b.IsPlain
  | header _ title => Console.IsPlain title
  | reports _ rs => ∀ r ∈ rs, r.IsPlain

theorem prints_run (h : Host) (c : Call) : Prints h c.run (c.texts h.isTerminal) := by
  cases c with
  | block color b => exact b.prints_run h color
  | header color title => exact prints_header h title color
  | reports output rs => exact prints_showReports h rs output

theorem isPlain_texts {isTerminal : Bool} {c : Call} (hc : c.IsPlain)
    (hoff : c.isColored isTerminal = false) : ∀ t ∈ c.texts isTerminal, Console.IsPlain t := by
  cases c with
  | block color b => exact List.forall_mem_singleton.2 (Block.isPlain_text hc hoff)
  | header color title => exact List.forall_mem_singleton.2 (isPlain_header hc hoff)
  | reports output rs =>
    intro t ht
    obtain ht | ht := List.mem_append.1 ht
    · obtain ⟨r, hr, ht⟩ := List.mem_flatMap.1 ht
      exact isPlain_reportTexts (hc r hr) hoff t ht
    · obtain rfl | ht := List.mem_cons.1 ht
      · exact isPlain_header (by decide) hoff
      · obtain ⟨r, hr, rfl⟩ := List.mem_map.1 ht
        exact isPlain_printed (List.forall_mem_singleton.2 (hc r hr).summary)

end Call

def runAll (calls : List Call) : Run Unit := do
  for c in calls do
    c.run

theorem prints_runAll (h : Host) (calls : List Call) :
    Prints h (runAll calls) (calls.flatMap (Call.texts h.isTerminal)) := by
  rw [runAll, bind_pure_unit]
  exact prints_forIn calls fun c => c.prints_run h

theorem flatten_blocks (color : Option Bool) (isTerminal : Bool) (blocks : List Block) :
    ((blocks.map (Call.block color)).flatMap (Call.texts isTerminal)).flatten =
      blocks.flatMap (Block.text color isTerminal) := by
  rw [List.flatMap_map]
  exact congrArg List.flatten List.map_eq_flatMap.symm

theorem isPlain_flatten {ts : List Text} (h : ∀ t ∈ ts, IsPlain t) : IsPlain ts.flatten := by
  intro hmem
  obtain ⟨t, ht, hc⟩ := List.mem_flatten.1 hmem
  exact h t ht hc

theorem log_append (s : Session) (ts : List Text) (consoles : Pool) :
    ({ s with printed := s.printed ++ ts, consoles := consoles } : Session).log =
      s.log ++ ts.flatten :=
  List.flatten_append

/-- Calls of all kinds without colour print no escape character if they were given none. Of messages
and violations that do show colour, the codes are all that is not printed without colour. -/
theorem codes_on_request :
    (∀ (h : Host) (s : Session) (calls : List Call),
      (∀ c ∈ calls, c.IsPlain ∧ c.isColored h.isTerminal = false) →
      ∃ t s', (runAll calls).exec h s = (.ok (), s') ∧ s'.log = s.log ++ t ∧ IsPlain t) ∧
    ∀ (h k : Host) (s u : Session) (color color' : Option Bool) (blocks : List Block),
      isColored color h.isTerminal = true → isColored color' k.isTerminal = false →
      (∀ b ∈ blocks, b.IsPlain) →
      ∃ t t' s' u', (runAll (blocks.map (.block color))).exec h s = (.ok (), s') ∧
        (runAll (blocks.map (.block color'))).exec k u = (.ok (), u') ∧
        s'.log = s.log ++ t ∧ u'.log = u.log ++ t' ∧ withoutCodes t = t' := by
  constructor
  · intro h s calls hcalls
    obtain ⟨consoles, hruns⟩ := prints_runAll h calls s
    refine ⟨_, _, hruns, log_append s _ consoles, isPlain_flatten fun t ht => ?_⟩
    obtain ⟨c, hc, ht⟩ := List.mem_flatMap.1 ht
    exact Call.isPlain_texts (hcalls c hc).1 (hcalls c hc).2 t ht
  · intro h k s u color color' blocks hon hoff hblocks
    obtain ⟨made, hcolored⟩ := prints_runAll h (blocks.map (.block color)) s
    obtain ⟨made', hplain⟩ := prints_runAll k (blocks.map (.block color')) u
    refine ⟨_, _, _, _, hcolored, hplain, log_append s _ made, log_append u _ made', ?_⟩
    rw [flatten_blocks, flatten_blocks]
    exact (undresses_flatMap fun b hb => Block.undresses_text (hblocks b hb) hon hoff).eq

def terminalHost : Host :=
  { bareHost with output := .terminal }

/-- A message with a tab and a violation of two lines, with colour on a terminal and without; and on
the terminal a whole report without. -/
theorem codes_on_request_report :
    let v : Violation := ⟨"a.c".toList, 3, 4, "-\tint a;\n+ int a;\n".toList⟩
    let r : Report := ⟨"clang-format".toList, ⟨false, [], [v]⟩, "Found 1 errors".toList, none, none⟩
    let blocks := [Block.message .warn "1\t2".toList true, .violation .error v true]
    let calls := blocks.map (.block (some false)) ++ [.header false "Plan".toList,
      .reports ⟨true, false⟩ [r]]
    (∀ c ∈ calls, c.IsPlain ∧ c.isColored true = false) ∧ (∀ b ∈ blocks, b.IsPlain) ∧
      ∃ plain t t' s s' u,
        (runAll calls).exec terminalHost (.start (.dir [])) = (.ok (), s) ∧ s.log = plain ∧
        (runAll (blocks.map (.block none))).exec terminalHost (.start (.dir [])) = (.ok (), s') ∧
        (runAll (blocks.map (.block (some false)))).exec terminalHost (.start (.dir [])) =
          (.ok (), u) ∧
        s'.log = t ∧ u.log = t' ∧ IsPlain plain ∧ withoutCodes t = t' := by
  intro v r blocks calls
  have hv : v.IsPlain := ⟨by decide, by decide⟩
  have hr : r.IsPlain := ⟨by decide, by decide, List.forall_mem_singleton.2 hv⟩
  have hmessage : Block.IsPlain (.message .warn "1\t2".toList true) := by
    change IsPlain "1\t2".toList
    decide
  have hblocks : ∀ b ∈ blocks, b.IsPlain :=
    List.forall_mem_cons.2 ⟨hmessage, List.forall_mem_singleton.2 hv⟩
  have hcalls : ∀ c ∈ calls, c.IsPlain ∧ c.isColored true = false := by
    refine List.forall_mem_append.2 ⟨fun c hc => ?_, ?_⟩
    · obtain ⟨b, hb, rfl⟩ := List.mem_map.1 hc
      exact ⟨hblocks b hb, rfl⟩
    · have htitle : Call.IsPlain (.header false "Plan".toList) := by
        change IsPlain "Plan".toList
        decide
      exact List.forall_mem_cons.2 ⟨⟨htitle, rfl⟩,
        List.forall_mem_singleton.2 ⟨List.forall_mem_singleton.2 hr, rfl⟩⟩
  obtain ⟨hoff, hon⟩ := codes_on_request
  obtain ⟨plain, s, hs, hlog, hplain⟩ := hoff terminalHost (.start (.dir [])) calls hcalls
  obtain ⟨t, t', s', u, hs', hu, ht, ht', hcodes⟩ := hon terminalHost terminalHost
    (.start (.dir [])) (.start (.dir [])) none (some false) blocks rfl rfl hblocks
  exact ⟨hcalls, hblocks, plain, t, t', s, s', u, hs, hlog, hs', hu, ht, ht', hplain, hcodes⟩

end Console

end FormatAudit
