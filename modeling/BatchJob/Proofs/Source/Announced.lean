import BatchJob.Proofs.Source.Lines

/-! A source that is started, read, closed and started again in any order, while what it reads stays as it is. It
answers as one would who has the identifiers in a list, and the total that it announces is the length of the list. -/
namespace BatchJob.LineSource
open Files (text?)
open LineReader (remaining? next_of_remaining? remaining?_of_text? remaining?_of_not_text)

inductive Call where
  | start
  | next
  | close
  deriving DecidableEq, Repr

inductive Reply where
  | done
  | found (id : Option String)
  | failed (fault : Fault)
  deriving DecidableEq, Repr

def Reply.isFound : Reply → Bool
  | .found (some _) => true
  | _ => false

def call (s : LineSource) (fs : Files) : Call → Reply × LineSource
  | .start =>
    match s.start fs with
    | (.ok (), s) => (.done, s)
    | (.error e, s) => (.failed e, s)
  | .next =>
    match s.next fs with
    | (.ok id, s) => (.found id, s)
    | (.error e, s) => (.failed e, s)
  | .close => (.done, s.close)

def calls (s : LineSource) : List (Call × Files) → List Reply × LineSource
  | [] => ([], s)
  | (c, fs) :: rest =>
    let (reply, s) := s.call fs c
    let (replies, s) := s.calls rest
    (reply :: replies, s)

/-- The answer of one who has the identifiers as a list. `position` is how many were asked for since the start, and
`none` when the source is closed. -/
def tell (path : String) (ids : List String) (position : Option Nat) : Call → Reply × Option Nat
  | .start => (.done, some 0)
  | .next =>
    match position with
    | some k => (.found ids[k]?, some (k + 1))
    | none => (.failed (.notOpen path), none)
  | .close => (.done, none)

def tellAll (path : String) (ids : List String) (position : Option Nat) : List Call → List Reply
  | [] => []
  | c :: rest => (tell path ids position c).1 :: tellAll path ids (tell path ids position c).2 rest

/-- The document has the given content when a call is made, and a start finds it at the path. -/
def Unchanged (path : String) (document : Nat) (content : List UInt8) : Call × Files → Prop
  | (.start, fs) => fs.open? path = .ok document ∧ fs.bytes document = content
  | (_, fs) => fs.bytes document = content

/-- The same source at the first line of a document. -/
def opened (s : LineSource) (document total : Nat) : LineSource :=
  { s with total := total, reader := some ⟨document, 0, []⟩ }

theorem opened_congr {s t : LineSource} (h : s.path = t.path) {document total : Nat} :
    s.opened document total = t.opened document total := by rw [opened, opened, h]

section
variable {s : LineSource} {fs : Files} {document : Nat}

theorem count?_eq (content : List UInt8) : count? content = (remaining? content).map List.length := by
  rw [remaining?, LineReader.names?_eq, count?]
  cases (content.splitOn LineReader.lineBreak).mapM LineReader.identifier? <;> rfl

theorem start_of_text {text : String} (hopen : fs.open? s.path = .ok document)
    (h : text? (fs.bytes document) = some text) :
    s.start fs = (.ok (), s.opened document (Text.identifiers text).length) := by
  simp only [start, hopen, count?_eq, remaining?_of_text? h, Option.map_some, opened]

theorem start_of_not_text (hopen : fs.open? s.path = .ok document) (h : text? (fs.bytes document) = none) :
    s.start fs = (.error (.file .notText), s) := by
  simp only [start, hopen, count?_eq, remaining?_of_not_text h, Option.map_none]

end

/-- A source that announced `ids`. If it is open, its reader sees what is left of them from `position` on. -/
structure Reads (s : LineSource) (path : String) (document : Nat) (content : List UInt8) (ids : List String)
    (position : Option Nat) : Prop where
  path_eq : s.path = path
  total_eq : s.total = ids.length
  closed : position = none → s.reader = none
  at_position : ∀ k, position = some k → ∃ r, s.reader = some r ∧ r.document = document ∧
    remaining? (r.visible content) = some (ids.drop k)

section
variable {s : LineSource} {path : String} {fs : Files} {document : Nat} {content : List UInt8} {ids : List String}
  {position : Option Nat}

theorem reads_opened {text : String} (h : text? content = some text) (hpath : s.path = path) :
    (s.opened document (Text.identifiers text).length).Reads path document content (Text.identifiers text)
      (some 0) where
  path_eq := hpath
  total_eq := rfl
  closed := nofun
  at_position k hk := by
    obtain rfl := Option.some.inj hk
    exact ⟨⟨document, 0, []⟩, rfl, rfl, remaining?_of_text? h⟩

theorem Reads.call {text : String} (h : s.Reads path document content (Text.identifiers text) position)
    (htext : text? content = some text) {c : Call} (hc : Unchanged path document content (c, fs)) :
    (s.call fs c).1 = (tell path (Text.identifiers text) position c).1 ∧
      (s.call fs c).2.Reads path document content (Text.identifiers text)
        (tell path (Text.identifiers text) position c).2 := by
  cases c with
  | start =>
    obtain ⟨hopen, rfl⟩ := hc
    rw [LineSource.call, start_of_text (h.path_eq ▸ hopen) htext]
    exact ⟨rfl, reads_opened htext h.path_eq⟩
  | next =>
    obtain rfl : fs.bytes document = content := hc
    cases position with
    | none =>
      rw [LineSource.call, next, h.closed rfl]
      exact ⟨congrArg (Reply.failed ∘ Fault.notOpen) h.path_eq, h⟩
    | some k =>
      obtain ⟨r, hr, hdoc, hleft⟩ := h.at_position k rfl
      obtain ⟨later, found, same, left⟩ := next_of_remaining? hleft
      rw [LineSource.call, next, hr]
      simp only [hdoc, found]
      refine ⟨by rw [List.head?_drop]; rfl, h.path_eq, h.total_eq, nofun, fun n hn => ?_⟩
      obtain rfl := Option.some.inj hn
      exact ⟨later, rfl, same.trans hdoc, by rw [left, List.tail_drop]⟩
  | close =>
    exact ⟨rfl, h.path_eq, h.total_eq, fun _ => rfl, nofun⟩

/-- Any number of calls, answered as from the list. -/
theorem Reads.calls {text : String} (h : s.Reads path document content (Text.identifiers text) position)
    (htext : text? content = some text) {cs : List (Call × Files)}
    (hcs : ∀ c ∈ cs, Unchanged path document content c) :
    (s.calls cs).1 = tellAll path (Text.identifiers text) position (cs.map Prod.fst) ∧
      ∃ last, (s.calls cs).2.Reads path document content (Text.identifiers text) last := by
  induction cs generalizing s position with
  | nil => exact ⟨rfl, position, h⟩
  | cons c cs ih =>
    obtain ⟨hc, hcs⟩ := List.forall_mem_cons.mp hcs
    obtain ⟨hreply, hnext⟩ := h.call htext hc
    obtain ⟨hreplies, hlast⟩ := ih hnext hcs
    exact ⟨congrArg₂ List.cons hreply hreplies, hlast⟩

end

theorem tellAll_next (path : String) (ids : List String) {k n : Nat} (h : ids.length ≤ k + n) :
    tellAll path ids (some k) (List.replicate n .next) =
      (ids.drop k).map (.found ∘ some) ++ List.replicate (n - (ids.length - k)) (.found none) := by
  induction n generalizing k with
  | zero =>
    rw [List.drop_eq_nil_of_le (show ids.length ≤ k from h)]
    simp [tellAll]
  | succ n ih =>
    have first : tellAll path ids (some k) (List.replicate (n + 1) .next) =
        .found ids[k]? :: tellAll path ids (some (k + 1)) (List.replicate n .next) := rfl
    rw [first, ih (by omega)]
    by_cases hk : k < ids.length
    · rw [List.drop_eq_getElem_cons hk, List.getElem?_eq_getElem hk, List.map_cons, List.cons_append,
        show n + 1 - (ids.length - k) = n - (ids.length - (k + 1)) by omega]
      rfl
    · rw [List.drop_eq_nil_of_le (by omega), List.drop_eq_nil_of_le (by omega), List.getElem?_eq_none (by omega),
        show n + 1 - (ids.length - k) = n - (ids.length - (k + 1)) + 1 by omega]
      rfl

theorem length_takeWhile_isFound (ids : List String) (n : Nat) :
    ((ids.map (Reply.found ∘ some) ++ List.replicate n (Reply.found none)).takeWhile Reply.isFound).length =
      ids.length := by
  induction ids with
  | nil => cases n <;> rfl
  | cons id ids ih => exact congrArg (· + 1) ih

/-- What a source announced at its start is what it finds from then on. -/
structure Announces (s : LineSource) (document : Nat) (content : List UInt8) (ids : List String) : Prop where
  total_eq : s.total = ids.length
  ne_empty : ∀ id ∈ ids, id ≠ ""
  yields : ∀ views : List Files, (∀ fs ∈ views, fs.bytes document = content) → ids.length ≤ views.length →
    (s.calls (views.map (.next, ·))).1 =
      ids.map (.found ∘ some) ++ List.replicate (views.length - ids.length) (.found none)
  counted : ∀ views : List Files, (∀ fs ∈ views, fs.bytes document = content) → ids.length ≤ views.length →
    ((s.calls (views.map (.next, ·))).1.takeWhile Reply.isFound).length = s.total
  replies_eq : ∀ cs, (∀ c ∈ cs, Unchanged s.path document content c) →
    (s.calls cs).1 = tellAll s.path ids (some 0) (cs.map Prod.fst)
  keeps_total : ∀ cs, (∀ c ∈ cs, Unchanged s.path document content c) → (s.calls cs).2.total = s.total
  starts_again : ∀ cs fs, (∀ c ∈ cs, Unchanged s.path document content c) →
    Unchanged s.path document content (.start, fs) → (s.calls cs).2.start fs = (.ok (), s)

theorem calls_next {s : LineSource} {document : Nat} {content : List UInt8} {text : String}
    (h : s.Reads s.path document content (Text.identifiers text) (some 0)) (htext : text? content = some text)
    {views : List Files} (hviews : ∀ fs ∈ views, fs.bytes document = content)
    (hlen : (Text.identifiers text).length ≤ views.length) :
    (s.calls (views.map (.next, ·))).1 = (Text.identifiers text).map (.found ∘ some) ++
      List.replicate (views.length - (Text.identifiers text).length) (.found none) := by
  have same : ∀ c ∈ views.map (Call.next, ·), Unchanged s.path document content c :=
    List.forall_mem_map.mpr hviews
  have nexts : (views.map (Call.next, ·)).map Prod.fst = List.replicate views.length .next := by
    rw [List.map_map]
    exact List.map_const'
  rw [(h.calls htext same).1, nexts, tellAll_next _ _ (by omega), List.drop_zero, Nat.sub_zero]

theorem announces_opened (s : LineSource) (document : Nat) {content : List UInt8} {text : String}
    (htext : text? content = some text) :
    (s.opened document (Text.identifiers text).length).Announces document content (Text.identifiers text) := by
  have reads : (s.opened document (Text.identifiers text).length).Reads s.path document content
      (Text.identifiers text) (some 0) := reads_opened htext rfl
  exact
    { total_eq := rfl
      ne_empty := fun id hid => by simpa using (List.mem_filter.mp hid).2
      yields := fun views hviews hlen => calls_next reads htext hviews hlen
      counted := fun views hviews hlen => by
        rw [calls_next reads htext hviews hlen, length_takeWhile_isFound]
        rfl
      replies_eq := fun cs hcs => (reads.calls htext hcs).1
      keeps_total := fun cs hcs => by
        obtain ⟨-, position, last⟩ := reads.calls htext hcs
        exact last.total_eq
      starts_again := fun cs fs hcs hfs => by
        obtain ⟨-, position, last⟩ := reads.calls htext hcs
        obtain ⟨hopen, rfl⟩ := hfs
        rw [start_of_text (last.path_eq ▸ hopen) htext]
        exact congrArg (Prod.mk _) (opened_congr last.path_eq) }

/-- A source that is started, in whatever state it is, announces what the text at its path holds, and finds it. If there
is no text at the path, the source stays as it is. -/
theorem start_announces (s : LineSource) (fs : Files) (document : Nat) (hopen : fs.open? s.path = .ok document) :
    (∀ text, text? (fs.bytes document) = some text →
      ∃ started, s.start fs = (.ok (), started) ∧
        started.Announces document (fs.bytes document) (Text.identifiers text)) ∧
    (text? (fs.bytes document) = none → s.start fs = (.error (.file .notText), s)) := by
  refine ⟨fun text htext => ⟨_, start_of_text hopen htext, ?_⟩, start_of_not_text hopen⟩
  exact announces_opened s document htext

/-- A file with the given content, and nothing else. -/
def holding (content : List UInt8) : Files :=
  { Files.empty with entries := [(["ids"], 0)], documents := [content] }

theorem open?_holding (content : List UInt8) : (holding content).open? "ids" = .ok 0 := by
  have hfault : Files.pathFault? "ids" = none := by decide
  have hbase : Files.base "ids" = [] := by decide +kernel
  have hnames : Files.pathNames "ids" = ["ids"] := by
    unfold Files.pathNames String.splitOn
    iterate 4 unfold String.splitOnAux
    rfl
  have hplace : (holding content).place? "ids" = .ok ["ids"] := by
    rw [Files.place?, hfault, hbase, hnames]
    rfl
  rw [Files.open?, hplace]
  rfl

/-- Two lines are not blank, and the last has no line break. -/
def straggling : List UInt8 := [13, 10, 32, 47, 97, 32, 13, 10, 10, 0xC2, 0xA0, 10, 0xC3, 0x9F, 46, 120]

/-- A source that is in the midst of a file starts again, and it stays where it is when the file by then ends within a
character. -/
theorem start_announces_in_midst :
    (∃ started, (⟨"ids", 2, some ⟨0, 8, [10]⟩⟩ : LineSource).start (holding straggling) = (.ok (), started) ∧
      started.Announces 0 straggling ["/a", "ß.x"]) ∧
    (⟨"ids", 2, some ⟨0, 8, [10]⟩⟩ : LineSource).start (holding [97, 10, 0xC3]) =
      (.error (.file .notText), ⟨"ids", 2, some ⟨0, 8, [10]⟩⟩) := by
  have text : text? straggling = some "\r\n /a \r\n\n\u00a0\nß.x" := by decide +kernel
  have noText : text? [97, 10, 0xC3] = none := by decide +kernel
  exact ⟨(start_announces ⟨"ids", 2, some ⟨0, 8, [10]⟩⟩ (holding _) 0 (open?_holding _)).1 _ text,
    (start_announces ⟨"ids", 2, some ⟨0, 8, [10]⟩⟩ (holding _) 0 (open?_holding _)).2 noText⟩

end BatchJob.LineSource
