import Mathlib.Data.Finset.Option
import Mathlib.Data.Finset.Prod
import PortableExecutable.Proofs.Caps.Rules
import PortableExecutable.Proofs.Safety.Resource

/-!
What a walk through the tree of resources visits. The tour is the walk with notes: which directories
have their slots read, at which depth, and which slots are followed. Without its notes it is the
walk. No directory and no slot is noted twice, on whatever graph the links make and however the walk
ends: a directory is entered only if it has not been opened before, and what a slot leads to notes
nothing about directories that were open when it was followed.
-/

namespace PortableExecutable

/-- A step of a walk through the tree of resources. -/
inductive Visit where
  /-- The slots of a directory are read, so many links below the root. -/
  | directory (offset depth : Nat)
  /-- A slot of a directory is followed. -/
  | slot (directory index : Nat)
  deriving DecidableEq, Repr

namespace Visit

/-- The directory that the step is about, and the slot of it. -/
def subject : Visit → Nat × Option Nat
  | .directory offset _ => (offset, none)
  | .slot owner index => (owner, some index)

/-- The directory that the step is about. -/
def place (v : Visit) : Nat := v.subject.1

/-- Offsets of directories have 31 bits, and each of two 16-bit numbers counts slots. -/
def Bounded (v : Visit) : Prop := v.place < 2 ^ 31 ∧ ∀ i ∈ v.subject.2, i < 2 * 65535

/-- There are only so many things to visit. -/
theorem length_le {visits : List Visit} {places slots : Nat}
    (distinct : (visits.map subject).Nodup)
    (bounded : ∀ v ∈ visits, v.place < places ∧ ∀ i ∈ v.subject.2, i < slots) :
    visits.length ≤ places * (slots + 1) := by
  have hSubset : (visits.map subject).toFinset ⊆
      Finset.range places ×ˢ (Finset.range slots).insertNone := by
    intro x hx
    obtain ⟨v, hv, rfl⟩ := List.mem_map.mp (List.mem_toFinset.mp hx)
    obtain ⟨hPlace, hIndex⟩ := bounded v hv
    refine Finset.mem_product.mpr ⟨Finset.mem_range.mpr hPlace, ?_⟩
    exact Finset.mem_insertNone.mpr fun i hi => Finset.mem_range.mpr (hIndex i hi)
  have hCard := Finset.card_le_card hSubset
  rwa [List.toFinset_card_of_nodup distinct, List.length_map, Finset.card_product,
    Finset.card_range, Finset.card_insertNone, Finset.card_range] at hCard

end Visit

/-- Steps on a session with notes of what they visit. A failure leaves the notes made before it. -/
def Tour (α : Type) : Type :=
  Session → List Visit × EStateM.Result (Stop ImageError) Session α

namespace Tour

variable {α β : Type}

instance : Monad Tour where
  pure a := fun s => ([], .ok a s)
  bind tour next := fun s =>
    match tour s with
    | (visits, .ok a s') => (visits ++ (next a s').1, (next a s').2)
    | (visits, .error e s') => (visits, .error e s')

/-- Steps without notes. -/
def step (act : ImageScan α) : Tour α := fun s => ([], act s)

def visit (v : Visit) : Tour Unit := fun s => ([v], .ok () s)

/-- What the tour does to sessions. -/
def scan (tour : Tour α) : ImageScan α := fun s => (tour s).2

/-- The notes of a tour, whether it delivers or stops. -/
def visits (tour : Tour α) (s : Session) : List Visit := (tour s).1

@[simp] theorem scan_step (act : ImageScan α) : (step act).scan = act := rfl

@[simp] theorem scan_visit_bind (v : Visit) (next : Unit → Tour β) :
    (visit v >>= next).scan = (next ()).scan := rfl

@[simp] theorem scan_bind (tour : Tour α) (next : α → Tour β) :
    (tour >>= next).scan = tour.scan >>= fun a => (next a).scan := by
  funext s
  simp only [scan, bind, EStateM.bind]
  cases tour s with
  | mk visits result => cases result <;> rfl

theorem scan_ite {c : Prop} [Decidable c] (tour tour' : Tour α) :
    (if c then tour else tour').scan = if c then tour.scan else tour'.scan := by
  split <;> rfl

/-- From the session `s` the tour either delivers as `done` says or stops with notes as `stopped`
says. -/
def Leads (tour : Tour α) (s : Session) (done : α → Session → List Visit → Prop)
    (stopped : List Visit → Prop) : Prop :=
  match tour s with
  | (visits, .ok a s') => done a s' visits
  | (visits, .error _ _) => stopped visits

section Rules

variable {tour : Tour α} {next : α → Tour β} {s : Session} {v : Visit}
  {mid done' : α → Session → List Visit → Prop} {done : β → Session → List Visit → Prop}
  {stopped stopped' : List Visit → Prop}

theorem Leads.mono (h : tour.Leads s mid stopped)
    (hDone : ∀ a s' visits, mid a s' visits → done' a s' visits)
    (hStopped : ∀ visits, stopped visits → stopped' visits) : tour.Leads s done' stopped' := by
  unfold Leads at *
  split at h
  · exact hDone _ _ _ h
  · exact hStopped _ h

/-- What else is known of where the tour delivers. -/
theorem Leads.and (h : tour.Leads s mid stopped) (h' : tour.Leads s done' stopped') :
    tour.Leads s (fun a s' visits => mid a s' visits ∧ done' a s' visits) stopped := by
  unfold Leads at *
  split at h
  case h_1 hTour =>
    rw [hTour] at h'
    exact ⟨h, h'⟩
  case h_2 => exact h

theorem Leads.of_ok {a : α} {s' : Session} (h : tour.Leads s mid stopped)
    (hRun : tour.scan s = .ok a s') : mid a s' (tour.visits s) := by
  rw [scan] at hRun
  rw [visits]
  rw [Leads] at h
  cases hTour : tour s with
  | mk visits result =>
      rw [hTour] at h hRun
      cases hRun
      exact h

theorem Leads.visits (h : tour.Leads s mid stopped)
    (hDone : ∀ a s' visits, mid a s' visits → stopped visits) : stopped (tour.visits s) := by
  rw [Tour.visits]
  rw [Leads] at h
  split at h
  case h_1 hTour =>
    rw [hTour]
    exact hDone _ _ _ h
  case h_2 hTour =>
    rw [hTour]
    exact h

theorem Leads.bind (first : tour.Leads s mid stopped)
    (rest : ∀ a s' visits, mid a s' visits → (next a).Leads s'
      (fun b s'' more => done b s'' (visits ++ more)) fun more => stopped (visits ++ more)) :
    (tour >>= next).Leads s done stopped := by
  simp only [Leads, Bind.bind] at *
  cases hTour : tour s with
  | mk visits result =>
      rw [hTour] at first
      cases result with
      | error e s' => exact first
      | ok a s' =>
          have hRest := rest a s' visits first
          dsimp only
          cases hNext : next a s' with
          | mk more result' =>
              rw [hNext] at hRest
              cases result' <;> exact hRest

theorem leads_step {act : ImageScan α}
    (h : act.Leads s (fun a s' => mid a s' []) fun _ _ => stopped []) :
    (step act).Leads s mid stopped := by
  simp only [Leads, step]
  rw [Scan.Leads] at h
  cases hAct : act s with
  | ok a s' =>
      rw [hAct] at h
      exact h
  | error e s' =>
      rw [hAct] at h
      exact h

theorem leads_step_bind {act : ImageScan α} {mid : α → Session → Prop}
    (first : act.Leads s mid fun _ _ => stopped [])
    (rest : ∀ a s', mid a s' → (next a).Leads s' done stopped) :
    (step act >>= next).Leads s done stopped := by
  have hStep : (step act).Leads s (fun a s' visits => visits = [] ∧ mid a s') stopped :=
    leads_step (first.mono (fun _ _ h => ⟨rfl, h⟩) fun _ _ h => h)
  refine hStep.bind fun a s' visits hMid => ?_
  obtain ⟨rfl, hMid⟩ := hMid
  exact rest a s' hMid

/-- A step of which nothing needs to be known. -/
theorem leads_any_bind {act : ImageScan α} (first : stopped [])
    (rest : ∀ a s', (next a).Leads s' done stopped) : (step act >>= next).Leads s done stopped := by
  have hStep : act.Leads s (fun _ _ => True) fun _ _ => stopped [] := by
    rw [Scan.Leads]
    split
    · trivial
    · exact first
  exact leads_step_bind hStep fun a s' _ => rest a s'

theorem leads_visit_bind {next : Unit → Tour β}
    (rest : (next ()).Leads s (fun b s' more => done b s' (v :: more))
      fun more => stopped (v :: more)) :
    (visit v >>= next).Leads s done stopped := by
  have hVisit : (visit v).Leads s (fun _ s' visits => visits = [v] ∧ s' = s) stopped := ⟨rfl, rfl⟩
  refine hVisit.bind fun _ s' visits hMid => ?_
  obtain ⟨rfl, rfl⟩ := hMid
  exact rest

theorem leads_pure {a : α} (h : mid a s []) : (pure a : Tour α).Leads s mid stopped := h

end Rules

end Tour

namespace Resource

variable (ctx : Context) (root : Nat)

section Definitions

/-- Follows a slot to the subdirectory or the leaf that it points to. -/
def tourTarget (descend : List ResourceId → Nat → List Nat → Nat → Tour Flattened)
    (path : List ResourceId) (slot : ResourceSlot) (opened : List Nat) (room : Nat) :
    Tour Flattened :=
  if ResourceSlot.isOffset slot.target then
    descend path (ResourceSlot.offset slot.target) opened room
  else Tour.step (readLeaf ctx root path (ResourceSlot.offset slot.target) opened room)

/-- Adds what the slots that are left give, unless there is no going on. -/
def tourOn (others : List Nat → Nat → Tour Flattened) (room : Nat) (first : Flattened) :
    Tour Flattened :=
  if first.goesOn then do
    let found ← others first.opened (room - first.leaves.length)
    return { found with leaves := first.leaves ++ found.leaves }
  else pure first

/-- Goes through the slots of a directory, the first of them with the given index. -/
def tourSlots (descend : List ResourceId → Nat → List Nat → Nat → Tour Flattened)
    (path : List ResourceId) (directory : Nat) :
    Nat → List ResourceSlot → List Nat → Nat → Tour Flattened
  | _, [], opened, _ => pure ⟨opened, [], true⟩
  | index, slot :: rest, opened, room => do
    Tour.visit (.slot directory index)
    let id ← Tour.step (readId ctx root slot)
    let first ← tourTarget ctx root descend (path ++ [id]) slot opened room
    tourOn (tourSlots descend path directory (index + 1) rest) room first

/-- Opens the directory at an offset, with `levels` levels of directories still allowed. -/
def tourFrom : Nat → List ResourceId → Nat → List Nat → Nat → Tour Flattened
  | 0, _, _, opened, _ => do
    Tour.step (Scan.emit (.resourceTooDeep ctx.options.maxResourceDepth.toNat))
    return ⟨opened, [], true⟩
  | levels + 1, path, offset, opened, room =>
    if opened.contains offset then do
      Tour.step (Scan.emit (.resourceRepeated offset))
      return ⟨opened, [], true⟩
    else do
      Tour.visit (.directory offset path.length)
      let slots ← Tour.step (readSlots root offset)
      tourSlots ctx root (tourFrom levels) path offset 0 slots (offset :: opened) room

def tour : Tour (List ResourceEntry) := do
  let reader ← Tour.step Scan.reader
  let found ← tourFrom ctx reader.position ctx.options.maxResourceDepth.toNat [] 0 []
    ctx.options.maxResourceEntries.toNat
  Tour.step (Scan.emit (.resourcesParsed found.leaves.length))
  return found.leaves

end Definitions

section Walk

variable {ctx : Context} {root : Nat}

theorem scan_tourSlots {tourDescend : List ResourceId → Nat → List Nat → Nat → Tour Flattened}
    {descend : List ResourceId → Nat → List Nat → Nat → ImageScan Flattened}
    (hDescend : ∀ path offset opened room,
      (tourDescend path offset opened room).scan = descend path offset opened room)
    {path : List ResourceId} {directory index : Nat} {slots : List ResourceSlot}
    {opened : List Nat} {room : Nat} :
    (tourSlots ctx root tourDescend path directory index slots opened room).scan =
      flattenSlots ctx root descend path slots opened room := by
  induction slots generalizing index opened room with
  | nil => rfl
  | cons slot rest ih =>
      rw [tourSlots, Tour.scan_visit_bind, Tour.scan_bind, Tour.scan_step, flattenSlots_cons]
      refine bind_congr fun id => ?_
      have hTarget : (tourTarget ctx root tourDescend (path ++ [id]) slot opened room).scan =
          readTarget ctx root descend (path ++ [id]) slot opened room := by
        rw [tourTarget, readTarget, Tour.scan_ite, hDescend, Tour.scan_step]
      rw [Tour.scan_bind, hTarget]
      refine bind_congr fun first => ?_
      rw [tourOn, proceed, Tour.scan_ite, Tour.scan_bind, ih]
      rfl

theorem scan_tourFrom {levels : Nat} (path : List ResourceId) (offset : Nat) (opened : List Nat)
    (room : Nat) :
    (tourFrom ctx root levels path offset opened room).scan =
      flatten ctx root levels path offset opened room := by
  induction levels generalizing path offset opened room with
  | zero => rfl
  | succ levels ih =>
      rw [tourFrom, flatten]
      split
      · rfl
      · rw [Tour.scan_visit_bind, Tour.scan_bind, Tour.scan_step]
        exact bind_congr fun slots => scan_tourSlots ih

/-- The tour does what the walk does. -/
theorem scan_tour : (tour ctx).scan = read ctx := by
  rw [tour, Tour.scan_bind, Tour.scan_step]
  refine bind_congr fun reader => ?_
  rw [Tour.scan_bind, scan_tourFrom]
  rfl

/-- All that a tour comes to, it comes to from the root on. -/
theorem leads_tour {s : Session} {done : Flattened → Session → List Visit → Prop}
    {stopped : List Visit → Prop}
    (h : (tourFrom ctx s.reader.position ctx.options.maxResourceDepth.toNat [] 0 []
      ctx.options.maxResourceEntries.toNat).Leads s done stopped) :
    (tour ctx).Leads s
      (fun entries s' visits => ∃ found s₁, done found s₁ visits ∧ entries = found.leaves ∧
        s'.reader = s₁.reader)
      stopped := by
  have hStart : (Scan.reader : ImageScan Reader).Leads s
      (fun reader s' => reader = s.reader ∧ s' = s) fun _ _ => stopped [] := ⟨rfl, rfl⟩
  refine Tour.leads_step_bind hStart fun reader s' hReader => ?_
  obtain ⟨rfl, rfl⟩ := hReader
  refine h.bind fun found s₁ visits hFound => ?_
  have hEnd : (Scan.emit (.resourcesParsed found.leaves.length) : ImageScan Unit).Leads s₁
      (fun _ s₂ => s₂.reader = s₁.reader) fun _ _ => stopped (visits ++ []) := rfl
  refine Tour.leads_step_bind hEnd fun _ s₂ same => ?_
  refine Tour.leads_pure ⟨found, s₁, ?_, rfl, same⟩
  rwa [List.append_nil]

end Walk

/-- Nothing is noted twice. Notes are about the slots of the given directory that are the part's own
ones, or about directories that were not open before. -/
structure Once (directory : Nat) (own : Nat → Prop) (opened : List Nat) (visits : List Visit) :
    Prop where
  distinct : (visits.map Visit.subject).Nodup
  whose : ∀ v ∈ visits, (∃ i, own i ∧ v = .slot directory i) ∨ v.place ∉ opened
  bounded : ∀ v ∈ visits, v.Bounded

/-- The directories that are open afterwards are those that were open and those that are entered;
all that was noted is about them. -/
structure Opened (opened : List Nat) (visits : List Visit) (found : Flattened) : Prop where
  kept : ∀ o ∈ opened, o ∈ found.opened
  noted : ∀ v ∈ visits, v.place ∈ found.opened
  entered : ∀ o ∈ found.opened, o ∈ opened ∨ ∃ depth, Visit.directory o depth ∈ visits

section Once

variable {ctx : Context} {root directory index : Nat} {own own' : Nat → Prop}
  {opened opened' : List Nat} {visits more : List Visit} {found : Flattened} {s : Session}

theorem once_nil : Once directory own opened [] := ⟨List.nodup_nil, nofun, nofun⟩

theorem opened_nil {leaves : List ResourceEntry} {goesOn : Bool} :
    Opened opened [] ⟨opened, leaves, goesOn⟩ :=
  ⟨fun _ => id, nofun, fun _ => .inl⟩

theorem Once.weaken (h : Once directory own opened visits) (hOwn : ∀ i, own i → own' i) :
    Once directory own' opened visits := by
  refine ⟨h.distinct, fun v hv => ?_, h.bounded⟩
  obtain ⟨i, hi, hSlot⟩ | fresh := h.whose v hv
  · exact .inl ⟨i, hOwn i hi, hSlot⟩
  · exact .inr fresh

/-- A note in front, about something that the others are not about. -/
theorem Once.cons {v : Visit} (h : Once directory own opened visits) (bounded : v.Bounded)
    (whose : (∃ i, own i ∧ v = .slot directory i) ∨ v.place ∉ opened)
    (new : ∀ w ∈ visits, w.subject ≠ v.subject) : Once directory own opened (v :: visits) := by
  refine ⟨?_, List.forall_mem_cons.mpr ⟨whose, h.whose⟩,
    List.forall_mem_cons.mpr ⟨bounded, h.bounded⟩⟩
  rw [List.map_cons, List.nodup_cons]
  refine ⟨fun hMem => ?_, h.distinct⟩
  obtain ⟨w, hw, same⟩ := List.mem_map.mp hMem
  exact new w hw same

/-- A slot of an open directory and what it leads to. -/
theorem Once.followed (h : Once directory (fun _ => False) opened visits)
    (hOpen : directory ∈ opened) (bounded : (Visit.slot directory index).Bounded) :
    Once directory (· = index) opened (.slot directory index :: visits) := by
  refine (h.weaken fun _ => False.elim).cons bounded (.inl ⟨index, rfl, rfl⟩) ?_
  intro w hw same
  obtain ⟨_, impossible, _⟩ | fresh := h.whose w hw
  · exact impossible
  · rw [Visit.place, same] at fresh
    exact fresh hOpen

/-- A directory that is entered, with its slots. -/
theorem Once.entered {depth : Nat} (h : Once directory own (directory :: opened) visits)
    (new : directory ∉ opened) (hDirectory : directory < 2 ^ 31) :
    Once directory (fun _ => False) opened (.directory directory depth :: visits) := by
  have others : Once directory (fun _ => False) opened visits := by
    refine ⟨h.distinct, fun v hv => .inr fun before => ?_, h.bounded⟩
    obtain ⟨i, -, rfl⟩ | fresh := h.whose v hv
    · exact new before
    · exact fresh (List.mem_cons_of_mem _ before)
  refine others.cons ⟨hDirectory, nofun⟩ (.inr new) ?_
  intro w hw same
  obtain ⟨i, -, rfl⟩ | fresh := h.whose w hw
  · cases same
  · rw [Visit.place, same] at fresh
    exact fresh List.mem_cons_self

/-- What comes later is about other slots, or about directories that are still not open then. -/
theorem Once.append (h : Once directory own opened visits) (hOpened : Opened opened visits found)
    (h' : Once directory own' found.opened more) (hOpen : directory ∈ opened)
    (apart : ∀ i, own i → ¬ own' i) :
    Once directory (fun i => own i ∨ own' i) opened (visits ++ more) := by
  refine ⟨?_, fun v hv => ?_, fun v hv => ?_⟩
  · rw [List.map_append, List.nodup_append]
    refine ⟨h.distinct, h'.distinct, fun a hLeft b hRight same => ?_⟩
    subst same
    obtain ⟨v, hv, rfl⟩ := List.mem_map.mp hLeft
    obtain ⟨w, hw, same⟩ := List.mem_map.mp hRight
    obtain ⟨j, hj, rfl⟩ | later := h'.whose w hw
    · obtain ⟨i, hi, rfl⟩ | fresh := h.whose v hv
      · cases same
        exact apart j hi hj
      · rw [Visit.place, ← same] at fresh
        exact fresh hOpen
    · rw [Visit.place, same] at later
      exact later (hOpened.noted v hv)
  · obtain hv | hv := List.mem_append.mp hv
    · obtain ⟨i, hi, hSlot⟩ | fresh := h.whose v hv
      · exact .inl ⟨i, .inl hi, hSlot⟩
      · exact .inr fresh
    · obtain ⟨i, hi, hSlot⟩ | later := h'.whose v hv
      · exact .inl ⟨i, .inr hi, hSlot⟩
      · exact .inr fun before => later (hOpened.kept _ before)
  · exact (List.mem_append.mp hv).elim (h.bounded v) (h'.bounded v)

theorem Opened.followed (h : Opened opened visits found) (hOpen : directory ∈ opened) :
    Opened opened (.slot directory index :: visits) found := by
  refine ⟨h.kept, List.forall_mem_cons.mpr ⟨h.kept _ hOpen, h.noted⟩, fun o ho => ?_⟩
  obtain before | ⟨depth, hDepth⟩ := h.entered o ho
  · exact .inl before
  · exact .inr ⟨depth, List.mem_cons_of_mem _ hDepth⟩

theorem Opened.entered_cons {depth : Nat} (h : Opened (directory :: opened) visits found) :
    Opened opened (.directory directory depth :: visits) found := by
  have hDirectory := h.kept _ List.mem_cons_self
  refine ⟨fun o ho => h.kept o (List.mem_cons_of_mem _ ho),
    List.forall_mem_cons.mpr ⟨hDirectory, h.noted⟩, fun o ho => ?_⟩
  obtain before | ⟨depth', hDepth⟩ := h.entered o ho
  · obtain rfl | before := List.mem_cons.mp before
    · exact .inr ⟨depth, List.mem_cons_self⟩
    · exact .inl before
  · exact .inr ⟨depth', List.mem_cons_of_mem _ hDepth⟩

theorem Opened.append {found' : Flattened} {leaves : List ResourceEntry} {goesOn : Bool}
    (h : Opened opened visits found) (h' : Opened found.opened more found') :
    Opened opened (visits ++ more) ⟨found'.opened, leaves, goesOn⟩ := by
  refine ⟨fun o ho => h'.kept o (h.kept o ho), fun v hv => ?_, fun o ho => ?_⟩
  · exact (List.mem_append.mp hv).elim (fun hv => h'.kept _ (h.noted v hv)) (h'.noted v)
  · obtain before | ⟨depth, hDepth⟩ := h'.entered o ho
    · obtain before | ⟨depth, hDepth⟩ := h.entered o before
      · exact .inl before
      · exact .inr ⟨depth, List.mem_append_left _ hDepth⟩
    · exact .inr ⟨depth, List.mem_append_right _ hDepth⟩

end Once

section Opening

variable {ctx : Context} {root : Nat}
  {descend : List ResourceId → Nat → List Nat → Nat → Tour Flattened} {path : List ResourceId}
  {slot : ResourceSlot} {opened : List Nat} {room directory index : Nat} {s : Session}

theorem yields_opened_readLeaf {offset : Nat} :
    (readLeaf ctx root path offset opened room).Yields (·.opened = opened) := by
  rw [readLeaf]
  split
  · exact Scan.yields_after fun _ => Scan.yields_pure rfl
  · exact Scan.yields_after fun _ => Scan.yields_after fun _ => Scan.yields_pure rfl

/-- Whatever enters a subdirectory keeps account of the open directories. -/
def TracksOpen (descend : List ResourceId → Nat → List Nat → Nat → Tour Flattened) : Prop :=
  ∀ (s : Session) (path : List ResourceId) (offset : Nat) (opened : List Nat) (room : Nat),
    (descend path offset opened room).Leads s (fun found _ visits => Opened opened visits found)
      fun _ => True

theorem opened_tourTarget (hDescend : TracksOpen descend) :
    (tourTarget ctx root descend path slot opened room).Leads s
      (fun found _ visits => Opened opened visits found) fun _ => True := by
  rw [tourTarget]
  split
  · exact hDescend _ _ _ _ _
  · refine Tour.leads_step ?_
    rw [Scan.Leads]
    split
    case h_1 found s' hRun =>
      cases yields_opened_readLeaf s found s' hRun
      exact opened_nil
    case h_2 => trivial

theorem opened_tourSlots (hDescend : TracksOpen descend) {slots : List ResourceSlot}
    (hOpen : directory ∈ opened) :
    (tourSlots ctx root descend path directory index slots opened room).Leads s
      (fun found _ visits => Opened opened visits found) fun _ => True := by
  induction slots generalizing s index opened room with
  | nil => exact Tour.leads_pure opened_nil
  | cons slot rest ih =>
      refine Tour.leads_visit_bind (Tour.leads_any_bind trivial fun name s₁ => ?_)
      refine Tour.Leads.bind (opened_tourTarget hDescend) fun first s₂ visits hFirst => ?_
      have hFollowed : Opened opened (.slot directory index :: visits) first :=
        hFirst.followed hOpen
      rw [tourOn]
      split
      case isTrue =>
        refine Tour.Leads.bind (ih (hFirst.kept _ hOpen)) fun others s₃ more hOthers => ?_
        refine Tour.leads_pure ?_
        rw [List.append_nil]
        exact hFollowed.append hOthers
      case isFalse =>
        refine Tour.leads_pure ?_
        rwa [List.append_nil]

theorem tracksOpen_tourFrom (levels : Nat) : TracksOpen (tourFrom ctx root levels) := by
  induction levels with
  | zero => exact fun _ _ _ _ _ => opened_nil
  | succ levels ih =>
      intro s path offset opened room
      rw [tourFrom]
      split
      case isTrue => exact opened_nil
      case isFalse =>
        refine Tour.leads_visit_bind (Tour.leads_any_bind trivial fun slots s₁ => ?_)
        exact (opened_tourSlots ih List.mem_cons_self).mono
          (fun _ _ _ hFound => hFound.entered_cons) fun _ => id

end Opening

section Notes

variable {ctx : Context} {root : Nat}
  {descend : List ResourceId → Nat → List Nat → Nat → Tour Flattened} {path : List ResourceId}
  {slot : ResourceSlot} {opened : List Nat} {room directory index : Nat} {s : Session}

/-- Whatever enters a subdirectory notes nothing twice, and nothing about open directories. -/
def NotesOnce (descend : List ResourceId → Nat → List Nat → Nat → Tour Flattened) : Prop :=
  ∀ (s : Session) (path : List ResourceId) (offset : Nat) (opened : List Nat) (room : Nat),
    offset < 2 ^ 31 → ∀ directory, (descend path offset opened room).Leads s
      (fun _ _ visits => Once directory (fun _ => False) opened visits)
      (Once directory (fun _ => False) opened)

theorem yields_length_readSlots {offset : Nat} :
    (readSlots root offset).Yields (·.length ≤ 2 * 65535) := by
  refine Scan.yields_after fun place => Scan.yields_after fun header =>
    Scan.yields_after fun next => Scan.yields_after fun slots => Scan.yields_pure ?_
  have hNamed := (header.u16 12).toNat_lt
  have hNumbered := (header.u16 14).toNat_lt
  rw [List.length_map, Record.pairs32, List.length_ofFn]
  omega

theorem once_tourTarget (hDescend : NotesOnce descend) :
    (tourTarget ctx root descend path slot opened room).Leads s
      (fun _ _ visits => Once directory (fun _ => False) opened visits)
      (Once directory (fun _ => False) opened) := by
  rw [tourTarget]
  split
  · exact hDescend _ _ _ _ _ (ResourceSlot.offset_lt _) _
  · refine Tour.leads_step ?_
    rw [Scan.Leads]
    split
    · exact once_nil
    · exact once_nil

theorem once_tourSlots (hDescend : NotesOnce descend) (hOpens : TracksOpen descend)
    {slots : List ResourceSlot} (hDirectory : directory < 2 ^ 31) (hOpen : directory ∈ opened)
    (few : index + slots.length ≤ 2 * 65535) :
    (tourSlots ctx root descend path directory index slots opened room).Leads s
      (fun _ _ visits => Once directory (index ≤ ·) opened visits)
      (Once directory (index ≤ ·) opened) := by
  induction slots generalizing s index opened room with
  | nil => exact Tour.leads_pure once_nil
  | cons slot rest ih =>
      rw [List.length_cons] at few
      have bounded : (Visit.slot directory index).Bounded :=
        ⟨hDirectory, fun i hi => by cases hi; omega⟩
      have own {visits : List Visit} (h : Once directory (fun _ => False) opened visits) :
          Once directory (index ≤ ·) opened (.slot directory index :: visits) :=
        (h.followed hOpen bounded).weaken fun _ => Nat.le_of_eq ∘ Eq.symm
      refine Tour.leads_visit_bind (Tour.leads_any_bind (own once_nil) fun name s₁ => ?_)
      refine Tour.Leads.bind (((once_tourTarget hDescend).and (opened_tourTarget hOpens)).mono
        (fun _ _ _ => id) fun _ => own) fun first s₂ visits hFirst => ?_
      obtain ⟨once, hOpened⟩ := hFirst
      have hFollowed : Opened opened (.slot directory index :: visits) first :=
        hOpened.followed hOpen
      have joined {more : List Visit} (h : Once directory (index + 1 ≤ ·) first.opened more) :
          Once directory (index ≤ ·) opened (.slot directory index :: (visits ++ more)) :=
        ((once.followed hOpen bounded).append hFollowed h hOpen (by omega)).weaken (by omega)
      rw [tourOn]
      split
      case isTrue =>
        refine Tour.Leads.bind ((ih (hOpened.kept _ hOpen) (by omega)).mono
          (fun _ _ _ => id) fun _ => joined) ?_
        intro others s₃ more hOthers
        refine Tour.leads_pure ?_
        rw [List.append_nil]
        exact joined hOthers
      case isFalse =>
        refine Tour.leads_pure ?_
        rw [List.append_nil]
        exact own once

theorem notesOnce_tourFrom (levels : Nat) : NotesOnce (tourFrom ctx root levels) := by
  induction levels with
  | zero => exact fun _ _ _ _ _ _ _ => once_nil
  | succ levels ih =>
      intro s path offset opened room hOffset directory
      rw [tourFrom]
      split
      case isTrue => exact once_nil
      case isFalse unopened =>
        have new : offset ∉ opened := fun hMem => unopened (List.contains_iff_mem.mpr hMem)
        have away {own : Nat → Prop} {visits : List Visit}
            (h : Once offset own (offset :: opened) visits) :
            Once directory (fun _ => False) opened (.directory offset path.length :: visits) := by
          have once : Once offset _ opened (.directory offset path.length :: visits) :=
            h.entered new hOffset
          refine ⟨once.distinct, fun v hv => .inr ?_, once.bounded⟩
          exact (once.whose v hv).resolve_left fun ⟨_, impossible, _⟩ => impossible
        refine Tour.leads_visit_bind ?_
        have hSlots : (readSlots root offset).Leads s (fun slots _ => slots.length ≤ 2 * 65535)
            fun _ _ => Once directory (fun _ => False) opened
              [.directory offset path.length] := by
          rw [Scan.Leads]
          split
          case h_1 slots s' hRun => exact yields_length_readSlots s slots s' hRun
          case h_2 => exact away (once_nil : Once offset (fun _ => False) _ _)
        refine Tour.leads_step_bind hSlots fun slots s₁ few => ?_
        exact (once_tourSlots ih (tracksOpen_tourFrom levels) hOffset List.mem_cons_self
          (by omega)).mono (fun _ _ _ => away) fun _ => away

end Notes
end Resource
end PortableExecutable
