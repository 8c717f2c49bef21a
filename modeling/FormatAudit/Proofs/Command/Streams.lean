import FormatAudit.Proofs.Command.Stages
import FormatAudit.Proofs.Result

/-! Whether the streams of a command are text or bytes. Where text was not asked for, the host hands
bytes over, and a command that exited has them as they are; one that took too long has texts, since
its error stream is written anew. -/
namespace FormatAudit

def Stream.isBytes : Stream → Bool
  | .bytes _ => true
  | .text _ => false

def Completed.HoldsBytes (c : Completed) : Prop :=
  ∀ x, c.stdout = some x ∨ c.stderr = some x → x.isBytes = true

def Completed.HoldsText (c : Completed) : Prop :=
  ∃ out err, c.stdout = some (.text out) ∧ c.stderr = some (.text err)

def Outcome.HoldsBytes : Outcome → Prop
  | .exited _ stdout stderr | .timedOut stdout stderr =>
    ∀ x, stdout = some x ∨ stderr = some x → x.isBytes = true
  | .failed _ => True

def Outcome.isTimedOut : Outcome → Bool
  | .timedOut .. => true
  | _ => false

namespace Command

open Run

section Streams

variable {h : Host} {s t : Session} {o : Options} {fs : Fields} {args words : List Text}
  {c d : Completed} {outcome : Outcome} {limit : Value}

theorem eq_of_checked (h : checked o c = .ok d) : c = d := by
  rw [checked] at h
  split at h
  · cases h
  · exact Except.ok.inj h

/-- Behind a command that has come to its end there is one launch, and the end is made of what the
host let it come to. -/
theorem exists_launch_of_run (hkeys : (fs.map (·.1)).Nodup)
    (hrun : (run args o fs).exec h s = (.ok c, t)) :
    ∃ words e, let l := (o.overlay fs).launch words e
      t.launches = s.launches ++ [l] ∧
        complete words (o.overlay fs).timeout (h.launch l s.tree).1 = .ok c := by
  obtain ⟨f, hf⟩ | ⟨words, e, hready⟩ := hindered_or_ready h o fs args
  · obtain ⟨looked, hfails⟩ := exec_run_of_hindered (s := s) hkeys hf
    cases hfails.symm.trans hrun
  · obtain ⟨looked, hlaunched⟩ := exec_run_of_ready (s := s) hkeys hready
    obtain ⟨hresult, rfl⟩ := Prod.mk.inj (hlaunched.symm.trans hrun)
    obtain ⟨d, hd, hchecked⟩ := exists_of_bind hresult
    exact ⟨words, e, rfl, eq_of_checked hchecked ▸ hd⟩

theorem holdsBytes_of_complete (hc : complete words limit outcome = .ok c)
    (hbytes : outcome.HoldsBytes) (hexit : outcome.isTimedOut = false) : c.HoldsBytes := by
  cases outcome with
  | exited code stdout stderr =>
    cases hc
    exact hbytes
  | timedOut stdout stderr => cases hexit
  | failed f => cases hc

theorem holdsText_of_complete (hc : complete words limit outcome = .ok c)
    (htime : outcome.isTimedOut = true) : c.HoldsText := by
  cases outcome with
  | exited code stdout stderr => cases htime
  | timedOut stdout stderr =>
    rw [complete, timedOut] at hc
    cases hline : timeoutLine limit with
    | error fault =>
      rw [hline] at hc
      cases hc
    | ok line =>
      rw [hline] at hc
      cases hc
      exact ⟨_, _, rfl, rfl⟩
  | failed f => cases htime

/-- Where text is not asked for and the host keeps to that, what is captured of a command is bytes
unless its time was over, and then it is text. -/
theorem run_streams (hkeys : (fs.map (·.1)).Nodup)
    (hhost : ∀ l tree, l.asText.holds = false → (h.launch l tree).1.HoldsBytes)
    (hbinary : (o.overlay fs).asText.holds = false)
    (hrun : (run args o fs).exec h s = (.ok c, t)) :
    ∃ l, t.launches = s.launches ++ [l] ∧
      ((h.launch l s.tree).1.isTimedOut = false → c.HoldsBytes) ∧
      ((h.launch l s.tree).1.isTimedOut = true → c.HoldsText) := by
  obtain ⟨words, e, hlaunches, hc⟩ := exists_launch_of_run hkeys hrun
  exact ⟨_, hlaunches, holdsBytes_of_complete hc (hhost _ _ hbinary), holdsText_of_complete hc⟩

/-- Every program is found, and what is launched fails with two bytes on its error stream. -/
def failingHost : Host :=
  { hangingHost with
    launch := fun _ tree => (.exited 1 none (some (.bytes [0xff, 0x0a])), tree) }

/-- The failure of a command that is not checked, with text switched off by an override. -/
theorem run_streams_failing :
    let fs : Fields := [("check".toList, .bool false), ("text".toList, .bool false)]
    let c : Completed := ⟨["/bin/indent".toList], 1, none, some (.bytes [0xff, 0x0a])⟩
    (fs.map (·.1)).Nodup ∧
      (∀ l tree, l.asText.holds = false → (failingHost.launch l tree).1.HoldsBytes) ∧
      (Options.standard.overlay fs).asText.holds = false ∧
      ∃ t l, (run ["indent".toList] .standard fs).exec failingHost (.start (.dir [])) = (.ok c, t) ∧
        t.launches = [l] ∧ c.HoldsBytes := by
  intro fs c
  have hkeys : (fs.map (·.1)).Nodup := by decide
  have hhost : ∀ l tree, l.asText.holds = false → (failingHost.launch l tree).1.HoldsBytes := by
    rintro l tree - x (hx | hx) <;> cases hx
    rfl
  have hrun : (run ["indent".toList] .standard fs).exec failingHost (.start (.dir [])) =
      (.ok c, ((run ["indent".toList] .standard fs).exec failingHost (.start (.dir []))).2) := rfl
  obtain ⟨l, hlaunches, hbytes, -⟩ := run_streams hkeys hhost rfl hrun
  exact ⟨hkeys, hhost, rfl, _, l, hrun, hlaunches, hbytes rfl⟩

def silentHost : Host :=
  { hangingHost with launch := fun _ tree => (.timedOut none none, tree) }

/-- A command that took too long has texts on its streams, though bytes were asked for and the host
has handed nothing over. -/
theorem run_streams_silent :
    let o := { Options.standard with check := .bool false, asText := .bool false }
    let c : Completed :=
      ⟨["/bin/clang-format".toList], 124, some (.text []),
        some (.text "Command timed out".toList)⟩
    (∀ l tree, (silentHost.launch l tree).1.HoldsBytes) ∧
      ((run ["clang-format".toList] o []).exec silentHost (.start (.dir []))).1 = .ok c ∧
      ¬ c.HoldsBytes := by
  intro o c
  refine ⟨?_, rfl, fun hbytes => ?_⟩
  · rintro l tree x (hx | hx) <;> cases hx
  · cases hbytes _ (.inl rfl)

end Streams

end Command

end FormatAudit
