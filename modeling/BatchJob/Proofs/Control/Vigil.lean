import BatchJob.Control.Watcher
import BatchJob.Proofs.Worker.Shift
import Mathlib.Data.List.Destutter

/-! A watched file beside others who use the panel of the job. A text is acted on once, when it first appears: the
watcher looks how many threads the job has, asks for another number if the text wants one, and then passes on the
command. The others come in between as they like. -/
namespace BatchJob.Control

/-- What others do. They request something, or the job changes its panel by itself, and then it may become any. -/
inductive Doing where
  | request (r : Request)
  | become (p : Panel)

def Doing.act (p : Panel) : Doing → Panel
  | request r => p.handle r
  | become q => q

/-- Another look is only taken when nothing is left to be done about the one before. A look without a text finds the
file unreadable. -/
inductive Move where
  | look (text : Option String)
  | proceed
  | other (d : Doing)

namespace Move

def look? : Move → Option (Option String)
  | look text => some text
  | _ => none

def doing? : Move → Option Doing
  | other d => some d
  | _ => none

/-- It is not the watcher who decides that it happens. -/
def isGiven : Move → Bool
  | proceed => false
  | _ => true

theorem filterMap_look?_filter (ms : List Move) : (ms.filter isGiven).filterMap look? = ms.filterMap look? := by
  rw [List.filterMap_filter]
  refine List.filterMap_congr fun m _ => ?_
  cases m <;> rfl

end Move

/-- `counted` is the number of threads that the watcher sees when it has found a new text. -/
inductive Note where
  | looked (text : Option String) (answer : Option Directives)
  | counted (threads : Nat)
  | asked (r : Request)
  | other (d : Doing)

namespace Note

def text? : Note → Option String
  | looked text _ => text
  | _ => none

def look? : Note → Option (Option String)
  | looked text _ => some text
  | _ => none

def answer? : Note → Option (Option Directives)
  | looked _ answer => some answer
  | _ => none

def asked? : Note → Option Request
  | asked r => some r
  | _ => none

def move? : Note → Option Move
  | looked text _ => some (.look text)
  | other d => some (.other d)
  | _ => none

/-- It is about the watcher. -/
def isOwn : Note → Bool
  | other _ => false
  | _ => true

def act (p : Panel) : Note → Panel
  | asked r => p.handle r
  | other d => d.act p
  | _ => p

def texts (notes : List Note) : List String := notes.filterMap text?

theorem texts_eq (notes : List Note) : texts notes = (notes.filterMap look?).reduceOption := by
  show notes.filterMap text? = (notes.filterMap look?).filterMap id
  rw [List.filterMap_filterMap]
  refine List.filterMap_congr fun note _ => ?_
  cases note <;> rfl

theorem filterMap_look? (notes : List Note) :
    notes.filterMap look? = (notes.filterMap move?).filterMap Move.look? := by
  rw [List.filterMap_filterMap]
  refine List.filterMap_congr fun note _ => ?_
  cases note <;> rfl

theorem filterMap_own {β : Type} {f : Note → Option β} (h : ∀ d, f (.other d) = none) (notes : List Note) :
    (notes.filter isOwn).filterMap f = notes.filterMap f := by
  rw [List.filterMap_filter]
  refine List.filterMap_congr fun note _ => ?_
  cases note with
  | other d => exact (h d).symm
  | _ => rfl

theorem filterMap_asked {β : Type} {f : Note → Option β} (h : ∀ r, f (.asked r) = none) (rs : List Request) :
    (rs.map asked).filterMap f = [] := by
  rw [List.filterMap_map]
  exact List.filterMap_eq_nil_iff.mpr fun r _ => h r

/-- What a note must say that comes after others. The panel was `p` before them. -/
def Holds (p : Panel) (before : List Note) : Note → Prop
  | looked text answer => answer = if (texts before).getLast? = text then none else text.map .read
  | counted threads => threads = (before.foldl act p).state.threadCount
  | _ => True

end Note

def Truthful (p : Panel) (notes : List Note) : Prop :=
  ∀ before note after, notes = before ++ note :: after → note.Holds p before

/-- A look at the file, and what the watcher does about it; the job had so many threads when there was news. -/
inductive Poll where
  | nothing (text : Option String)
  | news (text : String) (threads : Nat)

namespace Poll

def text : Poll → Option String
  | nothing text => text
  | news text _ => some text

def news? : Poll → Option String
  | nothing _ => none
  | news text _ => some text

def requests : Poll → List Request
  | nothing _ => []
  | news text threads => (Directives.read text).requests threads

def notes : Poll → List Note
  | nothing text => [.looked text none]
  | news text threads =>
    .looked (some text) (some (.read text)) :: .counted threads ::
      ((Directives.read text).requests threads).map .asked

theorem filterMap_asked?_notes (q : Poll) : q.notes.filterMap Note.asked? = q.requests := by
  cases q with
  | nothing text => rfl
  | news text threads =>
    show (((Directives.read text).requests threads).map Note.asked).filterMap Note.asked? = _
    rw [List.filterMap_map]
    exact List.filterMap_some

theorem filterMap_look?_notes (q : Poll) : q.notes.filterMap Note.look? = [q.text] := by
  cases q with
  | nothing text => rfl
  | news text threads => exact congrArg (some text :: ·) (Note.filterMap_asked (fun _ => rfl) _)

theorem filterMap_answer?_notes (q : Poll) : q.notes.filterMap Note.answer? = [q.news?.map .read] := by
  cases q with
  | nothing text => rfl
  | news text threads => exact congrArg (some (Directives.read text) :: ·) (Note.filterMap_asked (fun _ => rfl) _)

end Poll

/-- What is left to be done about a text. -/
inductive Chore where
  | compare (threads : Option Nat)
  | ask (r : Request)

def Directives.chores (d : Directives) : List Chore :=
  .compare d.threadCount :: d.command.toList.map fun c => .ask c.request

/-- The panel of a job, somebody who watches a file for it, and what happened so far. -/
structure Vigil where
  watcher : Watcher
  chores : List Chore
  panel : Panel
  journal : List Note

namespace Vigil

def start (p : Panel) : Vigil := ⟨.start, [], p, []⟩

def texts (x : Vigil) : List String := Note.texts x.journal

def answers (x : Vigil) : List (Option Directives) := x.journal.filterMap Note.answer?

def asked (x : Vigil) : List Request := x.journal.filterMap Note.asked?

def own (x : Vigil) : List Note := x.journal.filter Note.isOwn

def look (x : Vigil) (text : Option String) : Vigil :=
  ⟨(x.watcher.see text).2, ((x.watcher.see text).1.map Directives.chores).getD [], x.panel,
    x.journal ++ [.looked text (x.watcher.see text).1]⟩

def compare (x : Vigil) (threads : Option Nat) (rest : List Chore) : Vigil :=
  { x with
    chores := (threads.filter (· ≠ x.panel.state.threadCount)).toList.map (fun n => .ask (.setThreads n)) ++ rest
    journal := x.journal ++ [.counted x.panel.state.threadCount] }

def ask (x : Vigil) (r : Request) (rest : List Chore) : Vigil :=
  { x with chores := rest, panel := x.panel.handle r, journal := x.journal ++ [.asked r] }

def other (x : Vigil) (d : Doing) : Vigil :=
  { x with panel := d.act x.panel, journal := x.journal ++ [.other d] }

def step? (x : Vigil) : Move → Option Vigil
  | .look text => if x.chores.isEmpty then some (x.look text) else none
  | .proceed =>
    match x.chores with
    | [] => none
    | .compare threads :: rest => some (x.compare threads rest)
    | .ask r :: rest => some (x.ask r rest)
  | .other d => some (x.other d)

def run? (x : Vigil) (ms : List Move) : Option Vigil := Worker.runs? step? x ms

variable {x y z : Vigil} {m : Move} {ms ms' : List Move} {p : Panel}

theorem step?_cases (h : x.step? m = some y) :
    (∃ text, m = .look text ∧ x.chores = [] ∧ y = x.look text) ∨
      (∃ threads rest, m = .proceed ∧ x.chores = .compare threads :: rest ∧ y = x.compare threads rest) ∨
      (∃ r rest, m = .proceed ∧ x.chores = .ask r :: rest ∧ y = x.ask r rest) ∨ ∃ d, m = .other d ∧ y = x.other d := by
  cases m with
  | look text =>
    simp only [step?, Option.ite_none_right_eq_some, Option.some.injEq, List.isEmpty_iff] at h
    exact Or.inl ⟨text, rfl, h.1, h.2.symm⟩
  | proceed =>
    simp only [step?] at h
    cases hchores : x.chores with
    | nil => simp [hchores] at h
    | cons chore rest =>
      cases chore with
      | compare threads => exact Or.inr (Or.inl ⟨threads, rest, rfl, rfl, by simpa [hchores] using h.symm⟩)
      | ask r => exact Or.inr (Or.inr (Or.inl ⟨r, rest, rfl, rfl, by simpa [hchores] using h.symm⟩))
  | other d => exact Or.inr (Or.inr (Or.inr ⟨d, rfl, (Option.some.inj h).symm⟩))

end Vigil

namespace Watcher

variable {w : Watcher} {text : Option String}

theorem see_eq_none (h : text = none ∨ text = w.last) : w.see text = (none, w) := by
  cases text with
  | none => rfl
  | some t =>
    have hlast : w.last = some t := by simpa [eq_comm] using h
    simp [see, hlast]

theorem see_of_new {t : String} (h : w.last ≠ some t) : w.see (some t) = (some (.read t), ⟨some t⟩) := by
  simp [see, h]

theorem old_or_new (w : Watcher) (text : Option String) :
    (text = none ∨ text = w.last) ∨ ∃ t, text = some t ∧ w.last ≠ some t := by
  by_cases h : text = none ∨ text = w.last
  · exact Or.inl h
  · obtain ⟨hsome, hlast⟩ := not_or.mp h
    obtain ⟨t, rfl⟩ := Option.ne_none_iff_exists'.mp hsome
    exact Or.inr ⟨t, rfl, Ne.symm hlast⟩

end Watcher

namespace Vigil

variable {x : Vigil} {text : Option String}

theorem look_of_old (h : text = none ∨ text = x.watcher.last) :
    x.look text = ⟨x.watcher, [], x.panel, x.journal ++ [.looked text none]⟩ := by
  rw [look, Watcher.see_eq_none h]
  rfl

theorem look_of_new {t : String} (h : x.watcher.last ≠ some t) :
    x.look (some t) =
      ⟨⟨some t⟩, (Directives.read t).chores, x.panel, x.journal ++ [.looked (some t) (some (.read t))]⟩ := by
  rw [look, Watcher.see_of_new h]
  rfl

end Vigil

section Destutter

variable {α : Type} [DecidableEq α] (a b : α) (l : List α)

theorem destutter'_concat : (l ++ [b]).destutter' (· ≠ ·) a =
    if (a :: l).getLast? = some b then l.destutter' (· ≠ ·) a else l.destutter' (· ≠ ·) a ++ [b] := by
  induction l generalizing a with
  | nil => by_cases hab : a = b <;> simp [List.destutter', hab]
  | cons c l ih =>
    rw [List.getLast?_cons_cons]
    by_cases hac : a = c
    · subst hac
      simpa [List.destutter'] using ih a
    · simp only [List.cons_append, List.destutter', ne_eq, hac, not_false_eq_true, if_true, ih c]
      split <;> simp

/-- What comes last adds something only when it differs from what came last before. -/
theorem destutter_concat : (l ++ [b]).destutter (· ≠ ·) =
    if l.getLast? = some b then l.destutter (· ≠ ·) else l.destutter (· ≠ ·) ++ [b] := by
  cases l with
  | nil => simp [List.destutter]
  | cons a l => simpa [List.destutter] using destutter'_concat a b l

end Destutter

theorem Directives.map_ask_requests (d : Directives) (threads : Nat) :
    (d.requests threads).map .ask =
      (d.threadCount.filter (· ≠ threads)).toList.map (fun n => Chore.ask (.setThreads n)) ++
        d.command.toList.map (fun c => .ask c.request) := by
  rw [requests, List.map_append, List.map_map, List.map_map]
  rfl

/-- How far the watcher is with the news. What he did makes up whole polls, but for the chores that are left of the
last one; while he has yet to count the threads, that poll is not settled. -/
inductive Due (own : List Note) (news : List String) : List Chore → Prop
  | comparing (polls : List Poll) (text : String) :
      own = polls.flatMap Poll.notes ++ [.looked (some text) (some (.read text))] →
      news = polls.filterMap Poll.news? ++ [text] → Due own news (Directives.read text).chores
  | asking (polls : List Poll) (rest : List Request) :
      own ++ rest.map .asked = polls.flatMap Poll.notes →
      news = polls.filterMap Poll.news? → Due own news (rest.map .ask)

namespace Due

variable {own : List Note} {news : List String} {rest : List Chore}

theorem of_nil (h : Due own news []) :
    ∃ polls : List Poll, own = polls.flatMap Poll.notes ∧ news = polls.filterMap Poll.news? := by
  generalize hchores : ([] : List Chore) = chores at h
  cases h with
  | comparing polls text howns hnews => simp [Directives.chores] at hchores
  | asking polls rest' hown hnews =>
    obtain rfl : rest' = [] := by simpa using hchores.symm
    exact ⟨polls, by simpa using hown, hnews⟩

theorem nothing (h : Due own news []) (text : Option String) : Due (own ++ [.looked text none]) news [] := by
  obtain ⟨polls, hown, hnews⟩ := h.of_nil
  exact .asking (polls ++ [.nothing text]) [] (by simp [hown, Poll.notes]) (by simp [hnews, Poll.news?])

theorem found (h : Due own news []) (text : String) :
    Due (own ++ [.looked (some text) (some (.read text))]) (news ++ [text]) (Directives.read text).chores := by
  obtain ⟨polls, rfl, rfl⟩ := h.of_nil
  exact .comparing polls text rfl rfl

theorem compared {threads : Option Nat} (h : Due own news (.compare threads :: rest)) (n : Nat) :
    Due (own ++ [.counted n]) news ((threads.filter (· ≠ n)).toList.map (fun c => .ask (.setThreads c)) ++ rest) := by
  generalize hchores : Chore.compare threads :: rest = chores at h
  cases h with
  | comparing polls text hown hnews =>
    obtain ⟨rfl, rfl⟩ : threads = (Directives.read text).threadCount ∧
        rest = (Directives.read text).command.toList.map fun c => .ask c.request := by
      simpa [Directives.chores] using hchores
    rw [← Directives.map_ask_requests]
    exact .asking (polls ++ [.news text n]) _ (by simp [hown, Poll.notes]) (by simp [hnews, Poll.news?])
  | asking polls rest' hown hnews => cases rest' <;> simp at hchores

theorem asked {r : Request} (h : Due own news (.ask r :: rest)) : Due (own ++ [.asked r]) news rest := by
  generalize hchores : Chore.ask r :: rest = chores at h
  cases h with
  | comparing polls text hown hnews => simp [Directives.chores] at hchores
  | asking polls rest' hown hnews =>
    cases rest' with
    | nil => simp at hchores
    | cons r' rest' =>
      obtain ⟨rfl, rfl⟩ : r = r' ∧ rest = rest'.map .ask := by simpa using hchores
      exact .asking polls rest' (by simpa using hown) hnews

end Due

theorem Truthful.concat {p : Panel} {notes : List Note} {note : Note} (h : Truthful p notes)
    (hnote : note.Holds p notes) : Truthful p (notes ++ [note]) := by
  intro before note' after hsplit
  obtain rfl | ⟨after', last, rfl⟩ := after.eq_nil_or_concat
  · obtain ⟨rfl, hlast⟩ := List.append_inj' hsplit rfl
    obtain rfl : note = note' := by simpa using hlast
    exact hnote
  · have hsplit' : notes ++ [note] = (before ++ note' :: after') ++ [last] := by simpa using hsplit
    exact h before note' after' (List.append_inj' hsplit' rfl).1

namespace Vigil

variable {x y z : Vigil} {m : Move} {ms ms' : List Move} {p : Panel}

/-- The panel was `p` at first, and these moves were made since. -/
structure Kept (p : Panel) (ms : List Move) (x : Vigil) : Prop where
  happened : x.journal.filterMap Note.move? = ms.filter Move.isGiven
  truthful : Truthful p x.journal
  panel : x.panel = x.journal.foldl Note.act p
  last : x.watcher.last = x.texts.getLast?
  due : Due x.own (x.texts.destutter (· ≠ ·)) x.chores

theorem kept_start (p : Panel) : Kept p [] (start p) where
  happened := rfl
  truthful := by simp [Truthful, start]
  panel := rfl
  last := rfl
  due := .asking [] [] rfl rfl

theorem Kept.concat (h : Kept p ms x) (note : Note) (hjournal : y.journal = x.journal ++ [note])
    (hholds : note.Holds p x.journal) (hgiven : note.move?.toList = [m].filter Move.isGiven)
    (hpanel : y.panel = note.act x.panel) (hlast : y.watcher.last = note.text?.or x.watcher.last)
    (hdue : Due (x.own ++ [note].filter Note.isOwn) ((x.texts ++ note.text?.toList).destutter (· ≠ ·)) y.chores) :
    Kept p (ms ++ [m]) y := by
  have htexts : y.texts = x.texts ++ note.text?.toList := by
    rw [texts, hjournal, Note.texts, List.filterMap_append]
    cases htext : note.text? <;> simp [htext, texts, Note.texts]
  refine ⟨?_, hjournal ▸ h.truthful.concat hholds, ?_, ?_, ?_⟩
  · rw [hjournal, List.filterMap_append, h.happened, List.filter_append, ← hgiven]
    cases hmove : note.move? <;> simp [hmove]
  · rw [hpanel, hjournal, List.foldl_concat, h.panel]
  · rw [hlast, h.last, htexts]
    cases note.text? <;> simp
  · rw [own, hjournal, List.filter_append, htexts]
    exact hdue

theorem Kept.look (h : Kept p ms x) (hidle : x.chores = []) (text : Option String) :
    Kept p (ms ++ [.look text]) (x.look text) := by
  have hdue : Due x.own (x.texts.destutter (· ≠ ·)) [] := hidle ▸ h.due
  obtain hold | ⟨t, rfl, hnew⟩ := x.watcher.old_or_new text
  · rw [look_of_old hold]
    have htext : text.or x.watcher.last = x.watcher.last := by
      obtain rfl | rfl := hold
      · exact Option.none_or
      · exact Option.or_self
    have hnews : (x.texts ++ text.toList).destutter (· ≠ ·) = x.texts.destutter (· ≠ ·) := by
      cases text with
      | none => rw [Option.toList_none, List.append_nil]
      | some t => rw [Option.toList_some, destutter_concat, if_pos (h.last ▸ htext.symm)]
    refine h.concat (.looked text none) rfl ?_ rfl rfl htext.symm ?_
    · show none = if x.texts.getLast? = text then none else text.map Directives.read
      rw [← h.last]
      obtain rfl | rfl := hold
      · exact (ite_self _).symm
      · exact (if_pos rfl).symm
    · show Due (x.own ++ [.looked text none]) ((x.texts ++ text.toList).destutter (· ≠ ·)) []
      rw [hnews]
      exact hdue.nothing text
  · rw [look_of_new hnew]
    have hlast : x.texts.getLast? ≠ some t := h.last ▸ hnew
    refine h.concat (.looked (some t) (some (.read t))) rfl (if_neg hlast).symm rfl rfl rfl ?_
    show Due (x.own ++ [.looked (some t) (some (.read t))]) ((x.texts ++ [t]).destutter (· ≠ ·)) _
    rw [destutter_concat, if_neg hlast]
    exact hdue.found t

theorem Kept.step (h : Kept p ms x) (hstep : x.step? m = some y) : Kept p (ms ++ [m]) y := by
  obtain ⟨text, rfl, hidle, rfl⟩ | ⟨threads, rest, rfl, hchores, rfl⟩ | ⟨r, rest, rfl, hchores, rfl⟩ | ⟨d, rfl, rfl⟩ :=
    step?_cases hstep
  · exact h.look hidle text
  · refine h.concat (.counted x.panel.state.threadCount) rfl ?_ rfl rfl rfl ?_
    · rw [Note.Holds, h.panel]
    · show Due (x.own ++ [.counted _]) ((x.texts ++ []).destutter (· ≠ ·)) (x.compare threads rest).chores
      rw [List.append_nil]
      exact (hchores ▸ h.due).compared x.panel.state.threadCount
  · refine h.concat (.asked r) rfl trivial rfl rfl rfl ?_
    show Due (x.own ++ [.asked r]) ((x.texts ++ []).destutter (· ≠ ·)) rest
    rw [List.append_nil]
    exact (hchores ▸ h.due).asked
  · refine h.concat (.other d) rfl trivial rfl rfl rfl ?_
    show Due (x.own ++ []) ((x.texts ++ []).destutter (· ≠ ·)) x.chores
    rw [List.append_nil, List.append_nil]
    exact h.due

theorem Kept.run (h : Kept p ms x) (hrun : x.run? ms' = some y) : Kept p (ms ++ ms') y := by
  induction ms' generalizing ms x with
  | nil =>
    cases hrun
    simpa using h
  | cons m ms' ih =>
    obtain ⟨x₁, hstep, hrest⟩ := Option.bind_eq_some_iff.mp hrun
    simpa using ih (h.step hstep) hrest

theorem run?_of_old (hidle : x.chores = []) (hrun : x.run? ms = some y)
    (hold : ∀ text ∈ ms.filterMap Move.look?, text = none ∨ text = x.watcher.last) :
    y.chores = [] ∧ y.asked = x.asked ∧ y.panel = (ms.filterMap Move.doing?).foldl Doing.act x.panel := by
  induction ms generalizing x with
  | nil =>
    cases hrun
    exact ⟨hidle, rfl, rfl⟩
  | cons m ms ih =>
    obtain ⟨x₁, hstep, hrest⟩ := Option.bind_eq_some_iff.mp hrun
    obtain ⟨text, rfl, -, rfl⟩ | ⟨_, _, -, hchores, -⟩ | ⟨_, _, -, hchores, -⟩ | ⟨d, rfl, rfl⟩ := step?_cases hstep
    · have hlook := look_of_old (hold text (by simp [Move.look?]))
      have hasked : (x.look text).asked = x.asked := by simp [hlook, asked, Note.asked?]
      obtain ⟨hdone, hquiet, hpanel⟩ := ih (by rw [hlook]) hrest fun t ht => by
        simpa [hlook] using hold t (by simp [Move.look?, ht])
      exact ⟨hdone, hquiet.trans hasked, hpanel⟩
    -- There is no chore to go on with.
    · simp [hidle] at hchores
    · simp [hidle] at hchores
    · have hasked : (x.other d).asked = x.asked := by simp [Vigil.other, asked, Note.asked?]
      obtain ⟨hdone, hquiet, hpanel⟩ := ih (x := x.other d) hidle hrest fun t ht =>
        hold t (by simpa [Move.look?] using ht)
      exact ⟨hdone, hquiet.trans hasked, hpanel⟩

theorem run?_asks {rs : List Request} (hchores : x.chores = rs.map .ask) :
    x.run? (.replicate rs.length .proceed) =
      some ⟨x.watcher, [], rs.foldl Panel.handle x.panel, x.journal ++ rs.map .asked⟩ := by
  induction rs generalizing x with
  | nil =>
    obtain ⟨watcher, chores, panel, journal⟩ := x
    obtain rfl : chores = [] := hchores
    simp [run?, Worker.runs?]
  | cons r rs ih =>
    have hstep : x.step? .proceed = some (x.ask r (rs.map .ask)) := by simp [step?, hchores]
    have hrest := ih (x := x.ask r (rs.map .ask)) rfl
    rw [List.length_cons, List.replicate_succ, run?, Worker.runs?, hstep, Option.bind_some]
    simpa [run?, Vigil.ask] using hrest

theorem run?_news {t : String} (hidle : x.chores = []) (hnew : x.watcher.last ≠ some t) :
    x.run? (.look (some t) :: .proceed ::
        .replicate ((Directives.read t).requests x.panel.state.threadCount).length .proceed) =
      some ⟨⟨some t⟩, [], ((Directives.read t).requests x.panel.state.threadCount).foldl Panel.handle x.panel,
        x.journal ++ (Poll.news t x.panel.state.threadCount).notes⟩ := by
  have hlook : x.step? (.look (some t)) =
      some ⟨⟨some t⟩, (Directives.read t).chores, x.panel,
        x.journal ++ [.looked (some t) (some (.read t))]⟩ := by
    simp [step?, hidle, look_of_new hnew]
  have hcounted : step? ⟨⟨some t⟩, (Directives.read t).chores, x.panel,
      x.journal ++ [.looked (some t) (some (.read t))]⟩ .proceed =
      some ⟨⟨some t⟩, ((Directives.read t).requests x.panel.state.threadCount).map .ask, x.panel,
        x.journal ++ [.looked (some t) (some (.read t)), .counted x.panel.state.threadCount]⟩ := by
    simp [step?, Directives.chores, compare, Directives.map_ask_requests]
  rw [run?, Worker.runs?, hlook, Option.bind_some, Worker.runs?, hcounted, Option.bind_some]
  refine (run?_asks rfl).trans ?_
  simp [Poll.notes]

/-- Without the others, a look with all that follows from it is a poll. -/
theorem exists_run?_poll (hidle : x.chores = []) (text : Option String) :
    ∃ n z, x.run? (.look text :: .replicate n .proceed) = some z ∧ z.chores = [] ∧
      z.answers = x.answers ++ [(x.watcher.poll text x.panel).1] ∧
      (z.watcher, z.panel) = (x.watcher.poll text x.panel).2 := by
  obtain hold | ⟨t, rfl, hnew⟩ := x.watcher.old_or_new text
  · have hpoll : x.watcher.poll text x.panel = (none, x.watcher, x.panel) := by
      rw [Watcher.poll, Watcher.see_eq_none hold]
    have hlook : x.run? [.look text] = some ⟨x.watcher, [], x.panel, x.journal ++ [.looked text none]⟩ := by
      simp [run?, Worker.runs?, step?, hidle, look_of_old hold]
    refine ⟨0, _, hlook, rfl, ?_, ?_⟩
    · rw [hpoll, answers, List.filterMap_append]
      rfl
    · rw [hpoll]
  · have hpoll : x.watcher.poll (some t) x.panel = (some (.read t), ⟨some t⟩,
        ((Directives.read t).requests x.panel.state.threadCount).foldl Panel.handle x.panel) := by
      rw [Watcher.poll, Watcher.see_of_new hnew]
    refine ⟨((Directives.read t).requests x.panel.state.threadCount).length + 1, _, run?_news hidle hnew, rfl, ?_, ?_⟩
    · rw [hpoll, answers, List.filterMap_append, Poll.filterMap_answer?_notes]
      rfl
    · rw [hpoll]

/-- What is promised of somebody who watches a file for a job, while anything may be done to the job and to the file:
the panel was `p` at first, and these moves were made since. -/
structure Watched (p : Panel) (ms : List Move) (x : Vigil) : Prop where
  happened : x.journal.filterMap Note.move? = ms.filter Move.isGiven
  truthful : Truthful p x.journal
  panel : x.panel = x.journal.foldl Note.act p
  polled : ∃ polls : List Poll, polls.map Poll.text = ms.filterMap Move.look? ∧
    polls.filterMap Poll.news? = (ms.filterMap Move.look?).reduceOption.destutter (· ≠ ·) ∧
    x.own = polls.flatMap Poll.notes ∧ x.asked = polls.flatMap Poll.requests
  -- What is left in the file does not undo what others do.
  left : ∀ ms' y, x.run? ms' = some y →
    (∀ text ∈ ms'.filterMap Move.look?, text = none ∨ text = (ms.filterMap Move.look?).reduceOption.getLast?) →
    y.chores = [] ∧ y.asked = x.asked ∧ y.panel = (ms'.filterMap Move.doing?).foldl Doing.act x.panel
  -- When nobody comes in between, the watcher's steps make up a poll.
  alone : ∀ text, ∃ n y, x.run? (.look text :: .replicate n .proceed) = some y ∧ y.chores = [] ∧
    y.answers = x.answers ++ [(x.watcher.poll text x.panel).1] ∧
    (y.watcher, y.panel) = (x.watcher.poll text x.panel).2

theorem watched_of_run (hrun : (start p).run? ms = some x) (hidle : x.chores = []) : Watched p ms x := by
  have hkept : Kept p ms x := (kept_start p).run hrun
  have hlooks : x.journal.filterMap Note.look? = ms.filterMap Move.look? := by
    rw [Note.filterMap_look?, hkept.happened, Move.filterMap_look?_filter]
  have htexts : x.texts = (ms.filterMap Move.look?).reduceOption := by rw [texts, Note.texts_eq, hlooks]
  obtain ⟨polls, hown, hnews⟩ := (hidle ▸ hkept.due).of_nil
  have hmap : polls.map Poll.text = ms.filterMap Move.look? := by
    rw [← hlooks, ← Note.filterMap_own (fun _ => rfl), ← own, hown, List.filterMap_flatMap, List.map_eq_flatMap]
    exact List.flatMap_congr fun q _ => q.filterMap_look?_notes.symm
  have hasked : x.asked = polls.flatMap Poll.requests := by
    rw [asked, ← Note.filterMap_own (fun _ => rfl), ← own, hown, List.filterMap_flatMap]
    exact List.flatMap_congr fun q _ => q.filterMap_asked?_notes
  refine
    { happened := hkept.happened
      truthful := hkept.truthful
      panel := hkept.panel
      polled := ⟨polls, hmap, ?_, hown, hasked⟩
      left := fun ms' y hrun' hold => ?_
      alone := exists_run?_poll hidle }
  · rw [← htexts, hnews]
  · exact run?_of_old hidle hrun' fun text htext => by
      rw [hkept.last, htexts]
      exact hold text htext

/-- A pause stays in the file when somebody else has the job go on. The text that comes next wants the number of
threads that somebody else has just asked for. -/
def pauseLeft : List Move :=
  [.look (some "COMMAND=PAUSE\n"), .proceed, .proceed, .other (.request .resume), .look (some "COMMAND=PAUSE\n"),
    .look none, .look (some "COMMAND=PAUSE\nTHREAD-COUNT=5\n"), .other (.request (.setThreads 5)), .proceed, .proceed]

theorem watched_of_pauseLeft :
    ∃ x, (start (.fresh 2)).run? pauseLeft = some x ∧ x.chores = [] ∧ Watched (.fresh 2) pauseLeft x ∧
      x.asked = [.pause, .pause] := by
  have hidle : ((start (.fresh 2)).run? pauseLeft).map (·.chores.length) = some 0 := by decide +kernel
  have hasked : ((start (.fresh 2)).run? pauseLeft).map asked = some [.pause, .pause] := by decide +kernel
  obtain ⟨x, hrun, hlength⟩ := Option.map_eq_some_iff.mp hidle
  rw [hrun] at hasked
  have hchores := List.eq_nil_of_length_eq_zero hlength
  exact ⟨x, hrun, hchores, watched_of_run hrun hchores, Option.some.inj hasked⟩

end Vigil
end BatchJob.Control
