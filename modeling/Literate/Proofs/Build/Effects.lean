import Literate.Proofs.Build.Prediction

/-! # What a run leaves behind

    A run can be stopped by the file system at any of its writes, and in the
    middle of one.  What it leaves is told by one list of files that the document
    set and the stages decide (`Job.writes`): the files before the first one that
    is not accepted are there, and of this one a part at most.

    The statement is made for any file system that refuses some paths, limits the
    size of files and does nothing else of its own (`FileSystem.Limited`).

    * One write that is accepted leaves its whole text, and any other a fault
      and at most a proper part of it (`FileSystem.Limited.put_cases`).
    * What was carried out of a list goes on over another list behind it, and a
      list that was stopped is stopped also with more behind it
      (`Carried.append`, `Carried.stop`).  By these two it goes from one write to
      the steps of a stage, and from the stages to the run. -/

namespace Literate

/-! ## Files and planned writes -/

/-- The files behind a write: its target holds its text, and no other file is changed. -/
def written (files : Path → Option Text) (w : Path × Text) : Path → Option Text :=
  fun p => if w.1 == p then some w.2 else files p

/-- The files behind writes, one after the other. -/
def afterWrites (files : Path → Option Text) (ws : List (Path × Text)) : Path → Option Text :=
  ws.foldl written files

theorem written_written (files : Path → Option Text) (path : Path) (text text' : Text) :
    written (written files (path, text)) (path, text') = written files (path, text') := by
  funext p
  simp only [written]
  split <;> rfl

theorem afterWrites_append (files : Path → Option Text) (ws more : List (Path × Text)) :
    afterWrites files (ws ++ more) = afterWrites (afterWrites files ws) more :=
  List.foldl_append

/-- A file that is no target is left alone. -/
theorem afterWrites_other {files : Path → Option Text} {ws : List (Path × Text)} {p : Path}
    (h : ∀ w ∈ ws, (w.1 == p) = false) : afterWrites files ws p = files p := by
  induction ws generalizing files with
  | nil => rfl
  | cons w ws ih =>
      have hfirst : written files w p = files p := by
        rw [written, h w List.mem_cons_self]
        rfl
      rw [← hfirst]
      exact ih fun w' hw' => h w' (List.mem_cons_of_mem _ hw')

/-- The last write to a file is what it holds. -/
theorem afterWrites_last {files : Path → Option Text} {before after : List (Path × Text)}
    {w : Path × Text} {p : Path} (hw : (w.1 == p) = true)
    (hafter : ∀ w' ∈ after, (w'.1 == p) = false) :
    afterWrites files (before ++ w :: after) p = some w.2 := by
  rw [afterWrites_append]
  show afterWrites (written _ w) after p = _
  rw [afterWrites_other hafter, written, if_pos hw]

/-- What a target holds behind writes does not depend on what was there. -/
theorem afterWrites_target {files files' : Path → Option Text} {ws : List (Path × Text)} {p : Path}
    (h : ∃ w ∈ ws, (w.1 == p) = true) : afterWrites files ws p = afterWrites files' ws p := by
  induction ws generalizing files files' with
  | nil =>
      obtain ⟨w, hw, -⟩ := h
      cases hw
  | cons w ws ih =>
      by_cases hrest : ∃ w' ∈ ws, (w'.1 == p) = true
      · exact ih hrest
      · -- the first write is the only one to this file
        have hother : ∀ w' ∈ ws, (w'.1 == p) = false := by
          intro w' hw'
          exact Bool.eq_false_iff.mpr fun hsame => hrest ⟨w', hw', hsame⟩
        have hfirst : (w.1 == p) = true := by
          obtain ⟨w', hw', hsame⟩ := h
          rcases List.mem_cons.mp hw' with rfl | hw'
          · exact hsame
          · exact absurd ⟨w', hw', hsame⟩ hrest
        have hlast : ∀ files, afterWrites files (w :: ws) p = some w.2 :=
          fun files => @afterWrites_last files [] ws w p hfirst hother
        rw [hlast, hlast]

/-- Writing the same once more changes nothing. -/
theorem afterWrites_afterWrites (files : Path → Option Text) (ws : List (Path × Text)) :
    afterWrites (afterWrites files ws) ws = afterWrites files ws := by
  funext p
  by_cases h : ∃ w ∈ ws, (w.1 == p) = true
  · exact afterWrites_target h
  · exact afterWrites_other fun w hw => Bool.eq_false_iff.mpr fun hsame => h ⟨w, hw, hsame⟩

/-- Behind the first `j` planned writes nothing more is there, or a proper part of the text
    of the next one. -/
def Begun (plan : List (Path × Text)) (j : Nat) (further : List (Path × Text)) : Prop :=
  further = [] ∨ ∃ target text part, plan[j]? = some (target, text) ∧
    part <+: text ∧ part ≠ text ∧ further = [(target, part)]

/-- The first `j` planned writes are accepted, and the next one is not. -/
def StopsAt (accepted : Path × Text → Prop) (plan : List (Path × Text)) (j : Nat) : Prop :=
  (∀ w ∈ plan.take j, accepted w) ∧ ∀ w, plan[j]? = some w → ¬ accepted w

/-- The files behind a run are those behind the first `j` planned writes.  If the run came to
    a fault of the file system, a proper part of the next text may be there as well.  All
    other files are as they were. -/
def FollowsPlan (plan : List (Path × Text)) (before after : Path → Option Text)
    (result : Except Error Report) (j : Nat) : Prop :=
  j ≤ plan.length ∧ ∃ further, Begun plan j further ∧
    (further ≠ [] → ∃ fault, result = .error (.io fault)) ∧
    after = afterWrites before (plan.take j ++ further) ∧
    ∀ p, (∀ w ∈ plan.take j ++ further, (w.1 == p) = false) → after p = before p

theorem FollowsPlan.of_after {plan further : List (Path × Text)} {before after : Path → Option Text}
    {result : Except Error Report} {j : Nat} (hj : j ≤ plan.length)
    (hbegun : Begun plan j further) (hfault : further ≠ [] → ∃ fault, result = .error (.io fault))
    (hafter : after = afterWrites before (plan.take j ++ further)) :
    FollowsPlan plan before after result j := by
  refine ⟨hj, further, hbegun, hfault, hafter, fun p hp => ?_⟩
  rw [hafter, afterWrites_other hp]

/-- What ended a run early. -/
def Outcome.failure? (outcome : Outcome) : Option Error :=
  match outcome.result with
  | .ok _ => none
  | .error e => some e

/-- The planned writes were all accepted and carried out, or up to a fault at one that was not. -/
def Carried (accepted : Path × Text → Prop) (before after : Path → Option Text)
    (plan : List (Path × Text)) (failure : Option Error) : Prop :=
  (failure = none ∧ (∀ w ∈ plan, accepted w) ∧ after = afterWrites before plan) ∨
    ∃ fault j further, failure = some (.io fault) ∧ j < plan.length ∧ StopsAt accepted plan j ∧
      Begun plan j further ∧ after = afterWrites before (plan.take j ++ further)

namespace Carried

variable {accepted : Path × Text → Prop} {before between after : Path → Option Text}
  {plan plan' : List (Path × Text)} {failure : Option Error}

theorem nil (files : Path → Option Text) : Carried accepted files files [] none :=
  Or.inl ⟨rfl, List.forall_mem_nil _, rfl⟩

/-- Behind writes that were carried out, others are carried out as far as they are. -/
theorem append (h : Carried accepted before between plan none)
    (h' : Carried accepted between after plan' failure) :
    Carried accepted before after (plan ++ plan') failure := by
  obtain ⟨-, hall, rfl⟩ | ⟨fault, j, further, hnone, -⟩ := h
  · rcases h' with ⟨rfl, hall', rfl⟩ | ⟨fault, j, further, rfl, hj, ⟨htaken, hnext⟩, hbegun, rfl⟩
    · refine Or.inl ⟨rfl, ?_, (afterWrites_append before plan plan').symm⟩
      exact List.forall_mem_append.mpr ⟨hall, hall'⟩
    · have hplace : (plan ++ plan')[plan.length + j]? = plan'[j]? := by
        rw [List.getElem?_append_right (Nat.le_add_right _ _), Nat.add_sub_cancel_left]
      refine Or.inr ⟨fault, plan.length + j, further, rfl, ?_, ⟨?_, ?_⟩, ?_, ?_⟩
      · rw [List.length_append]
        omega
      · rw [List.take_length_add_append]
        exact List.forall_mem_append.mpr ⟨hall, htaken⟩
      · rw [hplace]
        exact hnext
      · rw [Begun, hplace]
        exact hbegun
      · rw [List.take_length_add_append, List.append_assoc, afterWrites_append before plan]
  · cases hnone

/-- Writes that were stopped are stopped also with others planned behind them. -/
theorem stop {e : Error} (h : Carried accepted before after plan (some e))
    (plan' : List (Path × Text)) : Carried accepted before after (plan ++ plan') (some e) := by
  obtain ⟨hnone, -⟩ | ⟨fault, j, further, hfault, hj, hstops, hbegun, rfl⟩ := h
  · cases hnone
  · refine Or.inr ⟨fault, j, further, hfault, ?_, ?_, ?_, ?_⟩
    · rw [List.length_append]
      omega
    · rw [StopsAt, List.take_append_of_le_length (Nat.le_of_lt hj), List.getElem?_append_left hj]
      exact hstops
    · rw [Begun, List.getElem?_append_left hj]
      exact hbegun
    · rw [List.take_append_of_le_length (Nat.le_of_lt hj)]

/-- What was carried out is a start of the plan, and all of it exactly if nothing failed. -/
theorem followsPlan {outcome : Outcome} (h : Carried accepted before after plan outcome.failure?) :
    ∃ j, FollowsPlan plan before after outcome.result j ∧ StopsAt accepted plan j ∧
      (j = plan.length ↔ ∃ report, outcome.result = .ok report) ∧
      ∀ e, outcome.result = .error e → ∃ fault, e = .io fault := by
  obtain ⟨log, result⟩ := outcome
  cases result with
  | ok report =>
      obtain ⟨-, hall, hafter⟩ | ⟨fault, j, further, hfault, -⟩ := h
      · refine ⟨plan.length, .of_after (Nat.le_refl _) (Or.inl rfl) (fun hne => absurd rfl hne) ?_,
          ⟨?_, ?_⟩, ⟨fun _ => ⟨report, rfl⟩, fun _ => rfl⟩, by nofun⟩
        · rw [List.take_length, List.append_nil]
          exact hafter
        · rw [List.take_length]
          exact hall
        · intro w hw
          rw [List.getElem?_length] at hw
          cases hw
      · cases hfault
  | error e =>
      obtain ⟨hnone, -⟩ | ⟨fault, j, further, hfault, hj, hstops, hbegun, hafter⟩ := h
      · cases hnone
      · obtain rfl := Option.some.inj hfault
        refine ⟨j, .of_after (Nat.le_of_lt hj) hbegun (fun _ => ⟨fault, rfl⟩) hafter, hstops,
          ⟨?_, by nofun⟩, ?_⟩
        · intro heq
          omega
        · intro e heq
          exact ⟨fault, (Except.error.inj heq).symm⟩

end Carried

/-! ## File systems with a limit -/

/-- A file of this text is within the limit. -/
def Fits (limit : Option Nat) (text : Text) : Prop :=
  ∀ n, limit = some n → text.byteSize ≤ n

theorem Fits.of_append {limit : Option Nat} {text more : Text} (h : Fits limit (text ++ more)) :
    Fits limit text := by
  intro n hn
  have hle := h n hn
  rw [Text.byteSize_append] at hle
  omega

/-- A write is accepted if its target is not refused and its text is within the limit. -/
def Accepted (refuses : Path → Bool) (limit : Option Nat) (w : Path × Text) : Prop :=
  refuses w.1 = false ∧ Fits limit w.2

namespace FileSystem

variable {σ : Type}

/-- A file system whose states hold the files that `contents` tells.  To open a file is refused
    for certain paths, and else leaves it there and empty.  A block is refused if it would
    bring the file above the limit, and else goes to the end of the file.  What is refused
    changes nothing, and no other file is ever changed. -/
structure Limited (fs : FileSystem σ) (contents : σ → Path → Option Text)
    (refuses : Path → Bool) (limit : Option Nat) : Prop where
  same : ∀ s p q, (p == q) = true → contents s p = contents s q
  create_refused : ∀ s path, refuses path = true → ∃ fault, fs.create s path = .error fault
  create_taken : ∀ s path, refuses path = false →
    ∃ s', fs.create s path = .ok s' ∧ contents s' = written (contents s) (path, [])
  append_refused : ∀ s path text block, contents s path = some text → ¬ Fits limit (text ++ block) →
    ∃ fault, fs.append s path block = .error fault
  append_taken : ∀ s path text block, contents s path = some text → Fits limit (text ++ block) →
    ∃ s', fs.append s path block = .ok s' ∧
      contents s' = written (contents s) (path, text ++ block)

namespace Limited

variable {fs : FileSystem σ} {contents : σ → Path → Option Text} {refuses : Path → Bool}
  {limit : Option Nat}

theorem written_self (h : fs.Limited contents refuses limit) {s : σ} {path : Path} {text : Text}
    (hs : contents s path = some text) : written (contents s) (path, text) = contents s := by
  funext p
  simp only [written]
  split
  · next hp => rw [← hs, h.same s path p hp]
  · rfl

/-- Blocks are appended to their end if all of them fit, or else up to one that is refused. -/
theorem appendAll_cases (h : fs.Limited contents refuses limit) (path : Path)
    (p : Pieces (Option Error)) {s : σ} {text : Text} (hs : contents s path = some text)
    (hfits : Fits limit text) :
    ((fs.appendAll path p s).1 = p.value ∧ Fits limit (text ++ p.text) ∧
      contents (fs.appendAll path p s).2 = written (contents s) (path, text ++ p.text)) ∨
    ∃ fault part, (fs.appendAll path p s).1 = some (.io fault) ∧ ¬ Fits limit (text ++ p.text) ∧
      part <+: p.text ∧ part ≠ p.text ∧
      contents (fs.appendAll path p s).2 = written (contents s) (path, text ++ part) := by
  induction p generalizing s text with
  | done failure =>
      left
      rw [Pieces.text_done, List.append_nil, h.written_self hs]
      exact ⟨rfl, hfits, rfl⟩
  | piece block rest ih =>
      rw [Pieces.text_piece, appendAll]
      by_cases hblock : Fits limit (text ++ block)
      · obtain ⟨s', happend, hcontents⟩ := h.append_taken s path text block hs hblock
        have hs' : contents s' path = some (text ++ block) := by
          rw [hcontents, written, if_pos BEq.rfl]
        rw [happend, ← List.append_assoc]
        rcases ih () hs' hblock with
          ⟨hvalue, hroom, hall⟩ | ⟨fault, part, hfault, hroom, hpart, hne, hall⟩
        · left
          refine ⟨hvalue, hroom, ?_⟩
          rw [hall, hcontents, written_written]
        · right
          refine ⟨fault, block ++ part, hfault, hroom, ?_, ?_, ?_⟩
          · exact (List.prefix_append_right_inj block).mpr hpart
          · intro heq
            exact hne (List.append_cancel_left heq)
          · rw [hall, hcontents, written_written, List.append_assoc]
      · obtain ⟨fault, happend⟩ := h.append_refused s path text block hs hblock
        rw [happend]
        right
        refine ⟨fault, [], rfl, ?_, List.nil_prefix, ?_, ?_⟩
        · intro hroom
          rw [← List.append_assoc] at hroom
          exact hblock hroom.of_append
        · -- an empty block would have been taken
          intro hnil
          obtain ⟨rfl, -⟩ := List.append_eq_nil_iff.mp hnil.symm
          rw [List.append_nil] at hblock
          exact hblock hfits
        · rw [List.append_nil, h.written_self hs]

/-- A write that is accepted leaves its text and ends as its content does.  Any other comes to a
    fault with a proper part of the text there, or with nothing changed. -/
theorem put_cases (h : fs.Limited contents refuses limit) (w : Write) (s : σ) :
    ((fs.put w s).1 = (w.content ()).value ∧ Accepted refuses limit (w.target, w.text) ∧
      contents (fs.put w s).2 = written (contents s) (w.target, w.text)) ∨
    ∃ fault further, (fs.put w s).1 = some (.io fault) ∧
      ¬ Accepted refuses limit (w.target, w.text) ∧
      Begun [(w.target, w.text)] 0 further ∧
      contents (fs.put w s).2 = afterWrites (contents s) further := by
  cases hrefuses : refuses w.target with
  | true =>
      obtain ⟨fault, hcreate⟩ := h.create_refused s w.target hrefuses
      rw [put, hcreate]
      refine Or.inr ⟨fault, [], rfl, ?_, Or.inl rfl, rfl⟩
      rintro ⟨htaken, -⟩
      rw [hrefuses] at htaken
      cases htaken
  | false =>
      obtain ⟨s', hcreate, hcontents⟩ := h.create_taken s w.target hrefuses
      have hs' : contents s' w.target = some [] := by
        rw [hcontents, written, if_pos BEq.rfl]
      rw [put, hcreate]
      rcases h.appendAll_cases w.target w.blocks hs' (fun _ _ => Nat.zero_le _) with
        ⟨hvalue, hroom, hall⟩ | ⟨fault, part, hfault, hroom, hpart, hne, hall⟩
      · left
        rw [w.text_blocks] at hroom
        rw [w.text_blocks, hcontents, written_written] at hall
        exact ⟨hvalue.trans w.value_blocks, ⟨hrefuses, hroom⟩, hall⟩
      · right
        rw [w.text_blocks] at hroom hpart hne
        rw [hcontents, written_written] at hall
        exact ⟨fault, [(w.target, part)], hfault, fun haccepted => hroom haccepted.2,
          Or.inr ⟨_, _, part, rfl, hpart, hne, rfl⟩, hall⟩

theorem put_carried (h : fs.Limited contents refuses limit) {w : Write}
    (hw : (w.content ()).value = none) (s : σ) :
    Carried (Accepted refuses limit) (contents s) (contents (fs.put w s).2)
      [(w.target, w.text)] (fs.put w s).1 := by
  rcases h.put_cases w s with
    ⟨hvalue, haccepted, hall⟩ | ⟨fault, further, hfault, haccepted, hbegun, hall⟩
  · rw [hw] at hvalue
    exact Or.inl ⟨hvalue, List.forall_mem_singleton.mpr haccepted, hall⟩
  · refine Or.inr ⟨fault, 0, further, hfault, Nat.one_pos, ⟨List.forall_mem_nil _, ?_⟩, hbegun,
      hall⟩
    intro w' hw'
    rw [← Option.some.inj hw']
    exact haccepted

end Limited

end FileSystem

/-! ## The steps of a plan -/

/-- The file that a step is to write. -/
def Step.planned : Step → Option (Path × Text)
  | .write _ w => some (w.target, w.text)
  | .fail _ => none

section Carrying

variable {σ : Type} {fs : FileSystem σ} {contents : σ → Path → Option Text}
  {refuses : Path → Bool} {limit : Option Nat}

/-- Sound steps are carried out, or stopped by a fault. -/
theorem Step.performAll_carried (h : fs.Limited contents refuses limit) {steps : List Step}
    (hsound : ∀ step ∈ steps, step.Sound) (s : σ) :
    Carried (Accepted refuses limit) (contents s) (contents (performAll fs.put steps s).2)
      (steps.filterMap Step.planned)
      (performAll fs.put steps s).1.2 := by
  induction steps generalizing s with
  | nil => exact Carried.nil _
  | cons step steps ih =>
      have hstep := hsound step List.mem_cons_self
      have ih := ih fun step' hstep' => hsound step' (List.mem_cons_of_mem _ hstep')
      cases step with
      | fail e => exact absurd hstep id
      | write announcement w =>
          have hput := h.put_carried hstep s
          generalize hwritten : fs.put w s = result at hput
          obtain ⟨failure, s'⟩ := result
          simp only [performAll, bind, StateT.bind, hwritten]
          cases failure with
          | some e => exact hput.stop _
          | none => exact hput.append (ih s')

/-- So is a stage, if it is wanted at all. -/
theorem Job.stage_carried (h : fs.Limited contents refuses limit) {wanted : Bool}
    {steps : List Step} (hsound : wanted = true → ∀ step ∈ steps, step.Sound) (summary : String)
    (s : σ) :
    Carried (Accepted refuses limit) (contents s) (contents (stage fs.put wanted steps summary s).2)
      (if wanted then steps.filterMap Step.planned else [])
      (stage fs.put wanted steps summary s).1.2 := by
  cases wanted with
  | false => exact Carried.nil _
  | true => exact Step.performAll_carried h (hsound rfl) s

/-- A job is its files and then its pages. -/
theorem Job.write_carried (h : fs.Limited contents refuses limit) (render : Text → Text)
    (settings : Settings) {stages : Stages} (job : Job)
    (htangle : stages.tangle = true →
      ∀ step ∈ tanglePlan job.document.chunks job.lattice settings.directive, step.Sound)
    (hweave : stages.weave = true →
      ∀ step ∈ weavePlan render job.document job.lattice settings.marker, step.Sound) (s : σ) :
    Carried (Accepted refuses limit) (contents s)
      (contents (write fs.put render settings stages job s).2)
      ((if stages.tangle then
          (tanglePlan job.document.chunks job.lattice settings.directive).filterMap Step.planned
        else [])
        ++ if stages.weave then
          (weavePlan render job.document job.lattice settings.marker).filterMap Step.planned
        else [])
      (write fs.put render settings stages job s).1.failure? := by
  have hfirst := stage_carried h htangle
    ("Tangled " ++ toString job.lattice.roots.length ++ " file(s)") s
  generalize htangled : stage fs.put stages.tangle
    (tanglePlan job.document.chunks job.lattice settings.directive)
    ("Tangled " ++ toString job.lattice.roots.length ++ " file(s)") s = first at hfirst
  obtain ⟨⟨log, failure⟩, s'⟩ := first
  have hsecond := stage_carried h hweave
    ("Wove " ++ toString (pages job.document).length ++ " page(s)") s'
  generalize hwoven : stage fs.put stages.weave
    (weavePlan render job.document job.lattice settings.marker)
    ("Wove " ++ toString (pages job.document).length ++ " page(s)") s' = second at hsecond
  obtain ⟨⟨log', failure'⟩, s''⟩ := second
  simp only [write, bind, StateT.bind, htangled]
  cases failure with
  | some e => exact hfirst.stop _
  | none =>
      simp only [StateT.bind, hwoven]
      cases failure' <;> exact hfirst.append hsecond

end Carrying

/-! ## Whole runs -/

namespace Job

/-- The files that a run is to write, in order: for each root its expansion, then for each
    document its page.  There are none if the scan or the check fails. -/
def writes (read : Path → Except Fault Text) (render : Text → Text) (settings : Settings)
    (root : Path) (stages : Stages) : List (Path × Text) :=
  match checked read settings root with
  | .error _ => []
  | .ok d =>
    let outDir := settings.outDirFor root
    (if stages.tangle then
        d.lattice.roots.map fun name =>
          (⟨name.text⟩, (d.chunks.expansion settings.directive name).text)
      else [])
    ++ if stages.weave then
        d.inputs.map fun input =>
          (.outputName input d.rootDir outDir,
            render ((d.assignOutputs outDir).annotate d.lattice settings.marker input))
      else []

theorem planned_tanglePlan (chunks : ChunkTable) (lattice : Lattice) (directive : Directive) :
    (tanglePlan chunks lattice directive).filterMap Step.planned
      = lattice.roots.map fun name => (⟨name.text⟩, (chunks.expansion directive name).text) := by
  rw [tanglePlan, List.filterMap_map, ← List.filterMap_eq_map]
  refine List.filterMap_congr fun name _ => ?_
  simp [tangleRoot, Step.planned, Write.text, Pieces.text, Pieces.list]

theorem planned_weavePlan {d : Document} (h : d.Distinct) (render : Text → Text) (outDir : Path)
    (lattice : Lattice) (marker : Text) :
    (weavePlan render (d.assignOutputs outDir) lattice marker).filterMap Step.planned
      = d.inputs.map fun input => (.outputName input d.rootDir outDir,
          render ((d.assignOutputs outDir).annotate lattice marker input)) := by
  rw [weavePlan, List.filterMap_map, ← List.filterMap_eq_map]
  refine List.filterMap_congr fun input hinput => ?_
  have houtput := Document.outputFor?_assignOutputs h outDir hinput
  simp [weaveInput, houtput, Step.planned, Write.text]

end Job

section Run

variable {σ : Type} {fs : FileSystem σ} {contents : σ → Path → Option Text}
  {refuses : Path → Bool} {limit : Option Nat}

/-- A run whose scan or check fails ends there and changes nothing. -/
theorem run_of_checked_error {settings : Settings} {root : Path} {s : σ} {e : Error}
    (h : Job.checked (fs.read s) settings root = .error e) (render : Text → Text)
    (stages : Stages) :
    (run fs render settings root stages s).1.result = .error e ∧
      (run fs render settings root stages s).2 = s := by
  have hresult := Job.prepare_result (fs.read s) settings root stages
  rw [h] at hresult
  rw [run, Preparation.complete, hresult]
  exact ⟨rfl, rfl⟩

/-- A run that passes the check goes on to write, with the outputs assigned if there are pages
    to weave. -/
theorem run_of_checked_ok {settings : Settings} {root : Path} {s : σ} {d : Document}
    (h : Job.checked (fs.read s) settings root = .ok d) (render : Text → Text) (stages : Stages) :
    ∃ document, document.chunks = d.chunks ∧
      (stages.weave = true → document = d.assignOutputs (settings.outDirFor root)) ∧
      (run fs render settings root stages s).2
        = (Job.write fs.put render settings stages ⟨document, d.lattice⟩ s).2 ∧
      (run fs render settings root stages s).1.failure?
        = (Job.write fs.put render settings stages ⟨document, d.lattice⟩ s).1.failure? := by
  have hresult := Job.prepare_result (fs.read s) settings root stages
  rw [h, Except.map] at hresult
  refine ⟨if stages.weave then d.assignOutputs (settings.outDirFor root) else d, ?_, ?_, ?_⟩
  · split <;> rfl
  · intro hwanted
    exact if_pos hwanted
  · rw [run, Preparation.complete, hresult]
    exact ⟨rfl, rfl⟩

/-- Behind the check a run carries out its writes, or is stopped by a fault. -/
theorem run_carried (hfs : fs.Limited contents refuses limit) {settings : Settings} {root : Path}
    {s : σ} {d : Document} (h : Job.checked (fs.read s) settings root = .ok d)
    (render : Text → Text) (stages : Stages) :
    Carried (Accepted refuses limit) (contents s)
      (contents (run fs render settings root stages s).2)
      (Job.writes (fs.read s) render settings root stages)
      (run fs render settings root stages s).1.failure? := by
  obtain ⟨hok, hscan, hproblems⟩ := Job.of_checked_eq_ok h
  have hdistinct := (Scan.passed_run hok).1
  rw [hscan] at hdistinct
  obtain ⟨document, hchunks, hassigned, hstate, hfailure⟩ := run_of_checked_ok h render stages
  have htangle : ∀ step ∈ Job.tanglePlan document.chunks d.lattice settings.directive,
      step.Sound := by
    rw [hchunks]
    exact Job.sound_tanglePlan hproblems settings.directive
  have hweave : stages.weave = true →
      ∀ step ∈ Job.weavePlan render document d.lattice settings.marker, step.Sound := by
    intro hwanted
    rw [hassigned hwanted]
    exact Job.sound_weavePlan (Document.isSome_outputFor? hdistinct (settings.outDirFor root))
      render d.lattice settings.marker
  have hcarried := Job.write_carried hfs render settings ⟨document, d.lattice⟩
    (fun _ => htangle) hweave s
  have hpages : (if stages.weave then
        (Job.weavePlan render document d.lattice settings.marker).filterMap Step.planned else [])
      = if stages.weave then
          d.inputs.map fun input => (.outputName input d.rootDir (settings.outDirFor root),
            render ((d.assignOutputs (settings.outDirFor root)).annotate d.lattice settings.marker
              input))
        else [] := by
    split
    · next hwanted => rw [hassigned hwanted, Job.planned_weavePlan hdistinct]
    · rfl
  simp only [hchunks, Job.planned_tanglePlan, hpages] at hcarried
  rw [hstate, hfailure]
  simp only [Job.writes, h]
  exact hcarried

/-- **A run leaves a start of its plan.**  On a file system that refuses some paths and limits
    the size of files, the files behind a run are those behind the first `j` of its
    writes, with at most a proper part of the next text, and that only if the run came to
    a fault.  The first `j` writes are accepted and the next one is not.  If the scan or
    the check fails, there is nothing to write, the run ends with that error and the state
    is the one before.  If both pass, the run succeeds exactly if `j` is all of the plan,
    and otherwise ends with a fault of the file system. -/
theorem run_follows_plan (hfs : fs.Limited contents refuses limit) (render : Text → Text)
    (settings : Settings) (root : Path) (stages : Stages) (s : σ) :
    ∃ j, FollowsPlan (Job.writes (fs.read s) render settings root stages) (contents s)
        (contents (run fs render settings root stages s).2)
        (run fs render settings root stages s).1.result j ∧
      StopsAt (Accepted refuses limit) (Job.writes (fs.read s) render settings root stages) j ∧
      (∀ e, Job.checked (fs.read s) settings root = .error e →
        Job.writes (fs.read s) render settings root stages = [] ∧
        (run fs render settings root stages s).1.result = .error e ∧
        (run fs render settings root stages s).2 = s) ∧
      ∀ d, Job.checked (fs.read s) settings root = .ok d →
        (j = (Job.writes (fs.read s) render settings root stages).length ↔
          ∃ report, (run fs render settings root stages s).1.result = .ok report) ∧
        ∀ e, (run fs render settings root stages s).1.result = .error e →
          ∃ fault, e = .io fault := by
  cases hchecked : Job.checked (fs.read s) settings root with
  | error e =>
      obtain ⟨hresult, hstate⟩ := run_of_checked_error hchecked render stages
      have hplan : Job.writes (fs.read s) render settings root stages = [] := by
        simp only [Job.writes, hchecked]
      refine ⟨0, .of_after (Nat.zero_le _) (Or.inl rfl) (fun hne => absurd rfl hne) ?_,
        ⟨List.forall_mem_nil _, ?_⟩, ?_, by nofun⟩
      · rw [hstate]
        rfl
      · rw [hplan]
        nofun
      · intro e' heq
        obtain rfl := Except.error.inj heq
        exact ⟨hplan, hresult, hstate⟩
  | ok d =>
      obtain ⟨j, hfollows, hstops, hall, hfault⟩ :=
        (run_carried hfs hchecked render stages).followsPlan
      exact ⟨j, hfollows, hstops, by nofun, fun _ _ => ⟨hall, hfault⟩⟩

end Run

/-- A store is such a file system, whatever is set to go wrong. -/
theorem Store.limited (faults : StoreFaults) :
    (Store.fileSystem faults).Limited Store.contents? faults.refused.contains faults.limit := by
  have hadd : ∀ (s : Store) (path : Path) (text : Text),
      (s.add path text).contents? = written s.contents? (path, text) := by
    intro s path text
    funext p
    rw [contents?, add, OrderedMap.insert, OrderedMap.get?_alter]
    rfl
  constructor
  · intro s p q h
    exact s.files.get?_congr h
  · intro s path hrefused
    exact ⟨.refused, if_pos hrefused⟩
  · intro s path htaken
    refine ⟨s.add path [], if_neg (by rw [htaken]; exact Bool.false_ne_true), hadd s path []⟩
  · intro s path text block hs hfull
    refine ⟨.full, ?_⟩
    show Store.append faults s path block = .error .full
    rw [append, hs]
    cases hlimit : faults.limit with
    | none => exact absurd (fun n hn => by rw [hlimit] at hn; cases hn) hfull
    | some n =>
        refine if_pos (Nat.lt_of_not_le fun hle => hfull fun m hm => ?_)
        rw [hlimit] at hm
        exact Option.some.inj hm ▸ hle
  · intro s path text block hs hfits
    refine ⟨s.add path (text ++ block), ?_, hadd s path _⟩
    show Store.append faults s path block = .ok (s.add path (text ++ block))
    rw [append, hs]
    cases hlimit : faults.limit with
    | none => rfl
    | some n => exact if_neg (Nat.not_lt_of_le (hfits n hlimit))

/-- A book of two documents, of which the second has the longer page. -/
def drawer : Store :=
  .ofList [(⟨['b']⟩, "[c](c.md)\n".toList), (⟨"c.md".toList⟩, "# A heading for C\n".toList)]

/-- There is room for the page of the first document only. -/
def narrow : StoreFaults :=
  ⟨[], some 40⟩

/-- Of the two pages of the drawer not both are written. -/
theorem drawer_follows_plan :
    (Store.fileSystem narrow).Limited Store.contents? narrow.refused.contains (some 40) ∧
    (Job.writes drawer.read id ⟨true, .none, none, []⟩ ⟨['b']⟩ .weaveOnly).length = 2 ∧
    ∃ j < 2, FollowsPlan (Job.writes drawer.read id ⟨true, .none, none, []⟩ ⟨['b']⟩ .weaveOnly)
        drawer.contents?
        (run (Store.fileSystem narrow) id ⟨true, .none, none, []⟩ ⟨['b']⟩ .weaveOnly
          drawer).2.contents?
        (run (Store.fileSystem narrow) id ⟨true, .none, none, []⟩ ⟨['b']⟩ .weaveOnly
          drawer).1.result j ∧
      StopsAt (Accepted narrow.refused.contains (some 40))
        (Job.writes drawer.read id ⟨true, .none, none, []⟩ ⟨['b']⟩ .weaveOnly) j := by
  have hlength : (Job.writes drawer.read id ⟨true, .none, none, []⟩ ⟨['b']⟩ .weaveOnly).length
      = 2 := by decide +kernel
  have hfailure : (run (Store.fileSystem narrow) id ⟨true, .none, none, []⟩ ⟨['b']⟩ .weaveOnly
      drawer).1.failure?.isSome = true := by decide +kernel
  have hlimited := Store.limited narrow
  obtain ⟨j, hfollows, hstops, hstopped, hpassed⟩ :=
    run_follows_plan hlimited id ⟨true, .none, none, []⟩ ⟨['b']⟩ .weaveOnly drawer
  have hread : (Store.fileSystem narrow).read drawer = drawer.read := rfl
  rw [hread] at hstopped hpassed hfollows hstops
  refine ⟨hlimited, hlength, j, ?_, hfollows, hstops⟩
  have hle := hfollows.1
  cases hchecked : Job.checked drawer.read ⟨true, .none, none, []⟩ ⟨['b']⟩ with
  | error e =>
      obtain ⟨hplan, -⟩ := hstopped e hchecked
      rw [hplan] at hlength
      cases hlength
  | ok d =>
      have hne : j ≠ (Job.writes drawer.read id ⟨true, .none, none, []⟩ ⟨['b']⟩
          .weaveOnly).length := by
        intro heq
        obtain ⟨report, hreport⟩ := (hpassed d hchecked).1.mp heq
        rw [Outcome.failure?, hreport] at hfailure
        cases hfailure
      omega

/-- A document whose only chunk refers to one that is not there. -/
def brokenDrawer : Store :=
  .ofList [(⟨['b']⟩, "```a.x\n@\x7bc\x7d\n```\n".toList)]

/-- Where the check fails, all of an empty plan is carried out, and still the run does not
    succeed. -/
theorem broken_drawer_ends_plan :
    (Store.fileSystem .none).Limited Store.contents? (List.contains []) none ∧
    ¬ ∃ j, FollowsPlan (Job.writes brokenDrawer.read id .default ⟨['b']⟩ .build)
        brokenDrawer.contents?
        (run (Store.fileSystem .none) id .default ⟨['b']⟩ .build brokenDrawer).2.contents?
        (run (Store.fileSystem .none) id .default ⟨['b']⟩ .build brokenDrawer).1.result j ∧
      (j = (Job.writes brokenDrawer.read id .default ⟨['b']⟩ .build).length ↔
        ∃ report, (run (Store.fileSystem .none) id .default ⟨['b']⟩ .build brokenDrawer).1.result
          = .ok report) := by
  have hlength : (Job.writes brokenDrawer.read id .default ⟨['b']⟩ .build).length = 0 := by
    decide +kernel
  have hfailure : (run (Store.fileSystem .none) id .default ⟨['b']⟩ .build
      brokenDrawer).1.failure?.isSome = true := by decide +kernel
  refine ⟨Store.limited .none, ?_⟩
  rintro ⟨j, ⟨hj, -⟩, hall⟩
  obtain ⟨report, hreport⟩ := hall.mp (by omega)
  rw [Outcome.failure?, hreport] at hfailure
  cases hfailure

end Literate
