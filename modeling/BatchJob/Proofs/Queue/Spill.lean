import BatchJob.Proofs.Queue.Ring
import BatchJob.Proofs.Queue.Store
import BatchJob.Queue.Spill

/-! A queue that spills is a list without bound: its memory and behind that its file. Operations act on
the list alone, wherever its entries happen to be, and one that fails leaves the list as it was. -/
namespace BatchJob.Queue.Spill

/-- The entries that wait in the file. -/
def onDisk (q : Spill) : List String := (q.store.map (·.entries)).getD []

/-- All entries of the queue, oldest first. -/
def content (q : Spill) : List String := q.memory.toList ++ q.onDisk

/-- The memory holds the entries `ms` and the file holds `fs`; there is a file only for entries. -/
structure Holds (q : Spill) (ms fs : List String) : Prop where
  memory : q.memory.Holds ms
  noFile : q.store = none → fs = []
  file : ∀ store, q.store = some store → store.Holds fs ∧ fs ≠ []
  nonempty : ∀ e ∈ fs, e ≠ ""

variable {q : Spill} {ms fs : List String}

theorem holds_empty (n : Nat) : (empty n).Holds [] [] where
  memory := Ring.holds_empty n
  noFile _ := rfl
  file _ h := by simp [empty] at h
  nonempty := by simp

theorem Holds.onDisk_eq (h : q.Holds ms fs) : q.onDisk = fs := by
  rw [onDisk]
  cases hs : q.store with
  | none => simp [h.noFile hs]
  | some store => simp [Store.entries_eq (h.file store hs).1]

theorem Holds.content_eq (h : q.Holds ms fs) : q.content = ms ++ fs := by
  rw [content, Ring.toList_eq h.memory, h.onDisk_eq]

theorem Holds.spilled_eq (h : q.Holds ms fs) : q.spilled = fs.length := by
  rw [spilled]
  cases hs : q.store with
  | none => simp [h.noFile hs]
  | some store => simp [(h.file store hs).1.pending_eq]

theorem Holds.isSome_store_iff (h : q.Holds ms fs) : q.store.isSome ↔ fs ≠ [] := by
  cases hs : q.store with
  | none => simp [h.noFile hs]
  | some store => simp [(h.file store hs).2]

theorem Holds.isFull_eq (h : q.Holds ms fs) :
    q.memory.isFull = decide (ms.length = q.memory.capacity) := by
  simp [Ring.isFull, h.memory.count_eq]

theorem tidy_holds {memory : Ring} (hm : memory.Holds ms) (store : Store) (disk : Disk) :
    (tidy ⟨memory, some store⟩ disk).1 = (if disk.deletes then .ok () else .error deleteFailed) ∧
      (tidy ⟨memory, some store⟩ disk).2 = ⟨memory, none⟩ ∧
      Holds ⟨memory, none⟩ ms [] := by
  refine ⟨?_, rfl, hm, fun _ => rfl, by simp, by simp⟩
  cases hd : disk.deletes <;> simp [tidy, close, hd, Except.map]

/-- One entry moves; only giving the file up after the last one can fail. -/
theorem refillOne_holds {e : String} {store : Store} (h : q.Holds ms (e :: fs))
    (hs : q.store = some store) (hroom : ms.length < q.memory.capacity) (disk : Disk) :
    (q.refillOne store disk).1 =
        (if fs = [] ∧ disk.deletes = false then .error deleteFailed else .ok ()) ∧
      (q.refillOne store disk).2.Holds (ms ++ [e]) fs ∧
      (q.refillOne store disk).2.memory.capacity = q.memory.capacity := by
  obtain ⟨hread, hrest⟩ := Store.readLine_cons (h.file store hs).1
  have he : e ≠ "" := h.nonempty e (by simp)
  obtain ⟨hok, hput, hcap⟩ := Ring.offer_of_room h.memory he hroom
  cases hr : store.readLine with
  | mk line rest =>
    rw [hr] at hread hrest
    cases ho : q.memory.offer e with
    | mk taken memory =>
      rw [ho] at hok hput hcap
      simp only at hread hrest hok hput hcap
      simp only [refillOne, hr, hread, Line.decode_encode, ho, hok]
      by_cases hfs : fs = []
      · subst hfs
        have hp : rest.pending = 0 := hrest.pending_eq
        obtain ⟨ht, hq, hh⟩ := tidy_holds hput rest disk
        rw [if_pos hp, ht, hq]
        refine ⟨?_, hh, hcap⟩
        cases disk.deletes <;> rfl
      · have hp : rest.pending ≠ 0 := by
          rw [hrest.pending_eq]
          exact fun hl => hfs (List.length_eq_zero_iff.mp hl)
        rw [if_neg hp]
        refine ⟨by simp [hfs], ⟨hput, by simp, ?_, ?_⟩, hcap⟩
        · intro s hs'
          cases hs'
          exact ⟨hrest, hfs⟩
        · intro x hx
          exact h.nonempty x (List.mem_cons_of_mem e hx)

theorem refill_holds (room : Nat) (h : q.Holds ms fs)
    (hroom : ms.length + room ≤ q.memory.capacity) (disk : Disk) :
    (refill room q disk).1 =
        (if fs ≠ [] ∧ fs.length ≤ room ∧ disk.deletes = false then .error deleteFailed else .ok ()) ∧
      (refill room q disk).2.Holds (ms ++ fs.take room) (fs.drop room) ∧
      (refill room q disk).2.memory.capacity = q.memory.capacity := by
  induction room generalizing q ms fs with
  | zero =>
    refine ⟨?_, by simpa [refill] using h, rfl⟩
    rw [if_neg (fun hf => hf.1 (List.length_eq_zero_iff.mp (Nat.le_zero.mp hf.2.1)))]
    rfl
  | succ room ih =>
    cases hs : q.store with
    | none =>
      have hf := h.noFile hs
      subst hf
      simpa [refill, hs] using h
    | some store =>
      obtain ⟨-, hne⟩ := h.file store hs
      obtain ⟨e, rest, rfl⟩ := List.exists_cons_of_ne_nil hne
      obtain ⟨hresult, hmoved, hcap⟩ := refillOne_holds h hs (by omega) disk
      cases ho : q.refillOne store disk with
      | mk result next =>
        rw [ho] at hresult hmoved hcap
        simp only at hresult hmoved hcap
        -- Giving the file up after its last entry can fail, and then there is nothing left to move.
        by_cases hlast : rest = [] ∧ disk.deletes = false
        · rw [if_pos hlast] at hresult
          obtain ⟨rfl, hd⟩ := hlast
          simpa [refill, hs, ho, hresult, hd, hcap] using hmoved
        · rw [if_neg hlast] at hresult
          have hsize : (ms ++ [e]).length + room ≤ next.memory.capacity := by
            rw [hcap, List.length_append, List.length_singleton]
            omega
          obtain ⟨hr, hh, hc⟩ := ih hmoved hsize
          simp only [refill, hs, ho, hresult]
          refine ⟨?_, by simpa using hh, hc.trans hcap⟩
          rw [hr]
          congr 1
          by_cases hrest : rest = []
          · simp_all
          · simp [hrest]

/-- After memory was filled up as far as there is room, nothing is left in the file or memory is
full; a failure leaves the list as it was. -/
theorem refill_room_holds (h : q.Holds ms fs) (disk : Disk) :
    (∀ e, (refill q.memory.room q disk).1 = .error e → disk.deletes = false) ∧
      ∃ ms' fs', (refill q.memory.room q disk).2.Holds ms' fs' ∧ ms' ++ fs' = ms ++ fs ∧
        (refill q.memory.room q disk).2.memory.capacity = q.memory.capacity ∧
        (fs' = [] ∨ ms'.length = q.memory.capacity) := by
  have hfits := h.memory.fits
  have hroom : ms.length + q.memory.room = q.memory.capacity := by
    rw [Ring.room, h.memory.count_eq]
    omega
  obtain ⟨hresult, hh, hcap⟩ := refill_holds q.memory.room h hroom.le disk
  refine ⟨?_, ms ++ fs.take q.memory.room, fs.drop q.memory.room, hh, ?_, hcap, ?_⟩
  · intro e he
    rw [hresult] at he
    split at he
    · rename_i hf
      exact hf.2.2
    · cases he
  · rw [List.append_assoc, List.take_append_drop]
  · rcases Nat.lt_or_ge q.memory.room fs.length with hlt | hge
    · right
      rw [List.length_append, List.length_take]
      omega
    · left
      exact List.drop_eq_nil_of_le hge

theorem append_holds (h : q.Holds ms fs) {entry : String} (he : entry ≠ "") (disk : Disk) :
    (q.append entry disk).2.memory = q.memory ∧
      (((q.append entry disk).1 = .ok () ∧ (q.append entry disk).2.Holds ms (fs ++ [entry])) ∨
        ((q.append entry disk).1 = .error createFailed ∧ (q.append entry disk).2 = q ∧
          disk.creates = false)) := by
  have hne : ∀ x ∈ fs ++ [entry], x ≠ "" := by
    intro x hx
    rcases List.mem_append.mp hx with hx | hx
    · exact h.nonempty x hx
    · rwa [List.mem_singleton.mp hx]
  have hnew : ∀ store : Store, store.Holds fs →
      Holds { q with store := some (store.append (Line.encode entry)) } ms (fs ++ [entry]) := by
    intro store hstore
    refine ⟨h.memory, by simp, ?_, hne⟩
    intro s hs
    cases hs
    exact ⟨hstore.append entry, by simp⟩
  rw [append]
  cases hs : q.store with
  | some store => exact ⟨rfl, .inl ⟨rfl, hnew store (h.file store hs).1⟩⟩
  | none =>
    cases hc : disk.creates with
    | false => exact ⟨rfl, .inr ⟨rfl, rfl, rfl⟩⟩
    | true =>
      have hf := h.noFile hs
      subst hf
      exact ⟨rfl, .inl ⟨rfl, hnew .create Store.holds_create⟩⟩

theorem offer_holds (h : q.Holds ms fs) {entry : String} (he : entry ≠ "") (disk : Disk) :
    (q.offer entry disk).2.memory.capacity = q.memory.capacity ∧
      (((q.offer entry disk).1 = .ok () ∧ ∃ ms' fs', (q.offer entry disk).2.Holds ms' fs' ∧
          ms' ++ fs' = ms ++ fs ++ [entry]) ∨
        ((q.offer entry disk).1 = .error createFailed ∧ (q.offer entry disk).2 = q ∧
          disk.creates = false)) := by
  rw [offer, if_neg he]
  split_ifs with hm
  · -- Nothing waits in the file, so memory has the youngest entry.
    obtain ⟨hsp, hfull⟩ := hm
    have hf : fs = [] := List.length_eq_zero_iff.mp (h.spilled_eq ▸ hsp)
    subst hf
    have hroom : ms.length < q.memory.capacity := by
      have hfits := h.memory.fits
      have hlt : ms.length ≠ q.memory.capacity := by simpa [h.isFull_eq] using hfull
      omega
    obtain ⟨-, hput, hcap⟩ := Ring.offer_of_room h.memory he hroom
    have hnone : q.store = none := by
      have hi := h.isSome_store_iff
      simpa using hi
    refine ⟨hcap, .inl ⟨rfl, ms ++ [entry], [], ⟨hput, fun _ => rfl, ?_, by simp⟩, by simp⟩⟩
    intro store hs
    rw [hnone] at hs
    cases hs
  · obtain ⟨hmem, ⟨hok, hh⟩ | hfail⟩ := append_holds h he disk
    · exact ⟨by rw [hmem], .inl ⟨hok, ms, fs ++ [entry], hh, by simp⟩⟩
    · exact ⟨by rw [hmem], .inr hfail⟩

theorem close_holds (h : q.Holds ms fs) (disk : Disk) :
    (q.close disk).2.memory = q.memory ∧ (q.close disk).2.Holds ms [] := by
  rw [close]
  cases hs : q.store with
  | none =>
    have hf := h.noFile hs
    subst hf
    exact ⟨rfl, h⟩
  | some store => exact ⟨rfl, h.memory, fun _ => rfl, by simp, by simp⟩

theorem filled_holds (h : q.Holds ms fs) (hM : 0 < q.memory.capacity) {c : Prop} [Decidable c]
    (hc : ms = [] → c) (disk : Disk) :
    (∀ e, (if c then refill q.memory.room q disk else (.ok (), q)).1 = .error e →
        disk.deletes = false) ∧
      ∃ ms' fs', (if c then refill q.memory.room q disk else (.ok (), q)).2.Holds ms' fs' ∧
        ms' ++ fs' = ms ++ fs ∧
        (if c then refill q.memory.room q disk else (.ok (), q)).2.memory.capacity =
          q.memory.capacity ∧
        (ms' = [] → fs' = []) := by
  split_ifs with hr
  · obtain ⟨herr, ms', fs', hh, heq, hcap, hfull⟩ := refill_room_holds h disk
    refine ⟨herr, ms', fs', hh, heq, hcap, ?_⟩
    intro hnil
    rcases hfull with hf | hf
    · exact hf
    · rw [hnil, List.length_nil] at hf
      omega
  · exact ⟨by simp, ms, fs, h, rfl, rfl, fun hnil => absurd (hc hnil) hr⟩

theorem poll_holds (h : q.Holds ms fs) (hM : 0 < q.memory.capacity) (disk : Disk) :
    (q.poll disk).2.memory.capacity = q.memory.capacity ∧
      ∃ ms' fs', (q.poll disk).2.Holds ms' fs' ∧
        (match (q.poll disk).1 with
          | .ok (some x) => ms ++ fs = x :: (ms' ++ fs')
          | .ok none => ms ++ fs = [] ∧ ms' ++ fs' = []
          | .error _ => ms' ++ fs' = ms ++ fs ∧ disk.deletes = false) := by
  have hc : ms = [] → (q.memory.isEmpty = true ∨ q.memory.count < q.refillBelow) := by
    intro hnil
    left
    simp [Ring.isEmpty, h.memory.count_eq, hnil]
  obtain ⟨herr, ms', fs', hh, heq, hcap, hnil⟩ := filled_holds h hM hc disk
  rw [poll]
  generalize (if q.memory.isEmpty = true ∨ q.memory.count < q.refillBelow then
    refill q.memory.room q disk else (.ok (), q)) = filled at herr hh hcap
  obtain ⟨result, next⟩ := filled
  cases result with
  | error e => exact ⟨hcap, ms', fs', hh, heq, herr e rfl⟩
  | ok _ =>
    cases ms' with
    | nil =>
      have hf := hnil rfl
      subst hf
      simp only [Ring.poll_nil hh.memory]
      exact ⟨hcap, [], [], hh, by simpa using heq.symm, rfl⟩
    | cons x rest =>
      obtain ⟨hx, hrest, hcap'⟩ := Ring.poll_cons hh.memory
      simp only [hx]
      refine ⟨hcap'.trans hcap, rest, fs', ⟨hrest, hh.noFile, hh.file, hh.nonempty⟩, ?_⟩
      rw [← heq, List.cons_append]

theorem peek_holds (h : q.Holds ms fs) (hM : 0 < q.memory.capacity) (disk : Disk) :
    (q.peek disk).2.memory.capacity = q.memory.capacity ∧
      (∀ x, (q.peek disk).1 = .ok x → x = (ms ++ fs).head?) ∧
      (∀ e, (q.peek disk).1 = .error e → disk.deletes = false) ∧
      ∃ ms' fs', (q.peek disk).2.Holds ms' fs' ∧ ms' ++ fs' = ms ++ fs := by
  have hc : ms = [] → q.memory.isEmpty = true := by
    intro hnil
    simp [Ring.isEmpty, h.memory.count_eq, hnil]
  obtain ⟨herr, ms', fs', hh, heq, hcap, hnil⟩ := filled_holds h hM hc disk
  rw [peek]
  generalize (if q.memory.isEmpty = true then refill q.memory.room q disk else (.ok (), q)) =
    filled at herr hh hcap
  obtain ⟨result, next⟩ := filled
  cases result with
  | error e => exact ⟨hcap, by simp, fun _ _ => herr e rfl, ms', fs', hh, heq⟩
  | ok _ =>
    refine ⟨hcap, ?_, by simp, ms', fs', hh, heq⟩
    intro x hx
    have hp : next.memory.peek = x := by simpa using hx
    rw [← hp, Ring.peek_eq hh.memory, ← heq]
    cases ms' with
    | nil => simp [hnil rfl]
    | cons y rest => rfl

inductive Request where
  | offer (entry : String)
  | poll
  | peek
  | close
  deriving DecidableEq, Repr

def after (q : Spill) : Request × Disk → Spill
  | (.offer entry, disk) => (q.offer entry disk).2
  | (.poll, disk) => (q.poll disk).2
  | (.peek, disk) => (q.peek disk).2
  | (.close, disk) => (q.close disk).2

def afterAll (q : Spill) (history : List (Request × Disk)) : Spill := history.foldl after q

/-- The queue holds some list, and its memory has the size it was given. -/
def Sound (M : Nat) (q : Spill) : Prop := (∃ ms fs, q.Holds ms fs) ∧ q.memory.capacity = M

theorem sound_after {M : Nat} (hM : 1 ≤ M) (h : q.Sound M) (request : Request) (disk : Disk) :
    (q.after (request, disk)).Sound M := by
  obtain ⟨⟨ms, fs, hh⟩, hcap⟩ := h
  have hpos : 0 < q.memory.capacity := by omega
  cases request with
  | offer entry =>
    by_cases he : entry = ""
    · have hq : (q.offer entry disk).2 = q := by rw [offer, if_pos he]
      exact ⟨⟨ms, fs, by rw [after, hq]; exact hh⟩, by rw [after, hq]; exact hcap⟩
    · obtain ⟨hc, ⟨-, ms', fs', hh', -⟩ | ⟨-, hq, -⟩⟩ := offer_holds hh he disk
      · exact ⟨⟨ms', fs', hh'⟩, hc.trans hcap⟩
      · exact ⟨⟨ms, fs, by rw [after, hq]; exact hh⟩, hc.trans hcap⟩
  | poll =>
    obtain ⟨hc, ms', fs', hh', -⟩ := poll_holds hh hpos disk
    exact ⟨⟨ms', fs', hh'⟩, hc.trans hcap⟩
  | peek =>
    obtain ⟨hc, -, -, ms', fs', hh', -⟩ := peek_holds hh hpos disk
    exact ⟨⟨ms', fs', hh'⟩, hc.trans hcap⟩
  | close =>
    obtain ⟨hm, hh'⟩ := close_holds hh disk
    exact ⟨⟨ms, [], hh'⟩, by rw [after, hm]; exact hcap⟩

theorem sound_afterAll {M : Nat} (hM : 1 ≤ M) (history : List (Request × Disk)) :
    ((empty M).afterAll history).Sound M := by
  have hstart : (empty M).Sound M := ⟨⟨[], [], holds_empty M⟩, Ring.capacity_empty M⟩
  have hall : ∀ q : Spill, q.Sound M → (q.afterAll history).Sound M := by
    induction history with
    | nil => exact fun q hq => hq
    | cons request history ih => exact fun q hq => ih _ (sound_after hM hq request.1 request.2)
  exact hall _ hstart

/-- Every operation on the queue is one on the list `content`. Where an operation can fail, a failure
leaves the list as it was, and the disk is to blame for it. -/
structure ActsAsList (M : Nat) (q : Spill) : Prop where
  offer_ok : ∀ entry disk next, q.offer entry disk = (.ok (), next) →
    entry ≠ "" ∧ next.content = q.content ++ [entry]
  offer_error : ∀ entry disk e next, q.offer entry disk = (.error e, next) →
    (entry = "" ∨ disk.creates = false) ∧ next.content = q.content
  poll_some : ∀ disk x next, q.poll disk = (.ok (some x), next) → q.content = x :: next.content
  poll_none : ∀ disk next, q.poll disk = (.ok none, next) → q.content = [] ∧ next.content = []
  poll_error : ∀ disk e next, q.poll disk = (.error e, next) →
    disk.deletes = false ∧ next.content = q.content
  peek_ok : ∀ disk x next, q.peek disk = (.ok x, next) →
    x = q.content.head? ∧ next.content = q.content
  peek_error : ∀ disk e next, q.peek disk = (.error e, next) →
    disk.deletes = false ∧ next.content = q.content
  close_content : ∀ disk, (q.close disk).2.content = q.memory.toList ∧
    q.memory.toList <+: q.content ∧ (q.close disk).2.store = none
  length_eq : q.length = q.content.length
  length_memory : q.memory.toList.length ≤ M ∧ q.memory.count = q.memory.toList.length
  spilled_eq : q.spilled = q.onDisk.length
  isOpen_iff : q.store.isSome ↔ 0 < q.spilled

theorem Holds.actsAsList {M : Nat} (hM : 1 ≤ M) (h : q.Holds ms fs) (hcap : q.memory.capacity = M) :
    q.ActsAsList M := by
  have hpos : 0 < q.memory.capacity := by omega
  constructor
  case offer_ok =>
    intro entry disk next ho
    by_cases he : entry = ""
    · rw [offer, if_pos he] at ho
      cases ho
    · obtain ⟨-, ⟨-, ms', fs', hh, heq⟩ | ⟨hf, -⟩⟩ := offer_holds h he disk
      · rw [ho] at hh
        exact ⟨he, by rw [hh.content_eq, h.content_eq, heq]⟩
      · rw [ho] at hf
        cases hf
  case offer_error =>
    intro entry disk e next ho
    by_cases he : entry = ""
    · rw [offer, if_pos he] at ho
      cases ho
      exact ⟨.inl he, rfl⟩
    · obtain ⟨-, ⟨hok, -⟩ | ⟨-, hq, hd⟩⟩ := offer_holds h he disk
      · rw [ho] at hok
        cases hok
      · rw [ho] at hq
        exact ⟨.inr hd, congrArg content hq⟩
  case poll_some =>
    intro disk x next hp
    obtain ⟨-, ms', fs', hh, heq⟩ := poll_holds h hpos disk
    rw [hp] at hh heq
    rw [h.content_eq, hh.content_eq]
    exact heq
  case poll_none =>
    intro disk next hp
    obtain ⟨-, ms', fs', hh, heq⟩ := poll_holds h hpos disk
    rw [hp] at hh heq
    rw [h.content_eq, hh.content_eq]
    exact heq
  case poll_error =>
    intro disk e next hp
    obtain ⟨-, ms', fs', hh, heq⟩ := poll_holds h hpos disk
    rw [hp] at hh heq
    rw [h.content_eq, hh.content_eq]
    exact heq.symm
  case peek_ok =>
    intro disk x next hp
    obtain ⟨-, hhead, -, ms', fs', hh, heq⟩ := peek_holds h hpos disk
    rw [hp] at hh hhead
    rw [h.content_eq, hh.content_eq]
    exact ⟨hhead x rfl, heq⟩
  case peek_error =>
    intro disk e next hp
    obtain ⟨-, -, herr, ms', fs', hh, heq⟩ := peek_holds h hpos disk
    rw [hp] at hh herr
    rw [h.content_eq, hh.content_eq]
    exact ⟨herr e rfl, heq⟩
  case close_content =>
    intro disk
    obtain ⟨-, hh⟩ := close_holds h disk
    rw [hh.content_eq, h.content_eq, Ring.toList_eq h.memory, List.append_nil]
    refine ⟨rfl, List.prefix_append ms fs, ?_⟩
    have hopen := hh.isSome_store_iff
    simpa using hopen
  case length_eq =>
    rw [length, h.memory.count_eq, h.spilled_eq, h.content_eq, List.length_append]
  case length_memory =>
    rw [Ring.toList_eq h.memory, ← hcap]
    exact ⟨h.memory.fits, h.memory.count_eq⟩
  case spilled_eq => rw [h.spilled_eq, h.onDisk_eq]
  case isOpen_iff => rw [h.isSome_store_iff, h.spilled_eq, List.length_pos_iff]

/-- After every history of requests, whatever the disk refused meanwhile, the queue is a list without
bound: its memory never holds more than `M` entries, and it has a file exactly as long as there are
entries in it. -/
theorem afterAll_actsAsList {M : Nat} (hM : 1 ≤ M) (history : List (Request × Disk)) :
    ((empty M).afterAll history).ActsAsList M := by
  obtain ⟨⟨ms, fs, h⟩, hcap⟩ := sound_afterAll hM history
  exact h.actsAsList hM hcap

/-- Room for one entry in memory: the second entry moves there and its file cannot be deleted. -/
theorem actsAsList_of_refused_deletion :
    1 ≤ 1 ∧ ((empty 1).afterAll [(.offer "a", ⟨true, true⟩), (.offer "b", ⟨true, true⟩),
      (.offer "c", ⟨false, true⟩), (.poll, ⟨true, true⟩), (.peek, ⟨true, true⟩),
      (.poll, ⟨true, false⟩)]).ActsAsList 1 :=
  ⟨by decide, afterAll_actsAsList (by decide) _⟩

end BatchJob.Queue.Spill
