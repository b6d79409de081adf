import PortableExecutable.Proofs.Budget.Directories
import PortableExecutable.Proofs.Export.Names

/-!
Reading exports follows the tables. The loop over the addresses makes one function of each, the
loop over the links between names and functions overwrites, and both stop at the first entry that
leads out of the file.
-/

namespace PortableExecutable
namespace Export

open Layout

variable {ctx : Context} {content : ByteArray} {limits : Limits} {position : Nat}
  {bounds : DataDirectory} {d : ExportDirectory} {s : Session}

theorem judges_requireAtMost {piece : Piece} {count : UInt32} {limit : Nat} :
    Scan.Judges limits (requireAtMost piece count limit) s (count.toNat ≤ limit)
      (fun _ => True) fun _ s' => s' = s := by
  rw [requireAtMost]
  split
  case isTrue above => exact Scan.judges_fail (by omega) trivial
  case isFalse within => exact Scan.judges_pure (by omega) rfl

/-- The text at an address inside the bounds of the directory. -/
def readForwardName (ctx : Context) (bounds : DataDirectory) (address : UInt32) :
    ImageScan (Option String) :=
  if bounds.strictlyContains address then some <$> ctx.stringAtRva .exportForwarder address
  else pure none

theorem readFunctions_cons {ordinal address : UInt32} {rest : List UInt32} :
    readFunctions ctx bounds ordinal (address :: rest) = do
      let forwardName ← readForwardName ctx bounds address
      return { address, ordinal, forwardName } ::
        (← readFunctions ctx bounds (ordinal + 1) rest) := by
  rw [readFunctions, readForwardName]
  split <;> rfl

/-- A function as the table of addresses has it. -/
def unnamed (ctx : Context) (content : ByteArray) (bounds : DataDirectory)
    (ordinal address : UInt32) : ExportedFunction where
  address := address
  ordinal := ordinal
  forwardName :=
    if bounds.Surrounds address.toNat then some (ctx.textAt content address.toNat) else none

theorem judges_readForwardName {address : UInt32} (h : s.Reads content limits position) :
    Scan.Judges limits (readForwardName ctx bounds address) s
      (bounds.Surrounds address.toNat → ctx.Backs content address.toNat) (fun _ => True)
      fun forwardName s' =>
        (∀ ordinal, ⟨address, ordinal, none, forwardName⟩ =
          unnamed ctx content bounds ordinal address) ∧ s'.Reads content limits position := by
  rw [readForwardName]
  split
  case isTrue contained =>
    have surrounded := DataDirectory.strictlyContains_iff.mp contained
    simp only [unnamed, surrounded, if_true, forall_const]
    refine Scan.Judges.map ?_
    refine (Context.judges_stringAtRva h trivial fun _ => trivial).mono ?_
    intro text s' _ hText
    exact ⟨fun _ => by rw [hText.1], hText.2⟩
  case isFalse contained =>
    have outside := mt DataDirectory.strictlyContains_iff.mpr contained
    simp only [unnamed, outside, if_false, false_implies]
    exact Scan.judges_pure trivial ⟨fun _ => rfl, h⟩

theorem judges_readFunctions {ordinal : UInt32} {addresses : List UInt32}
    (h : s.Reads content limits position) :
    Scan.Judges limits (readFunctions ctx bounds ordinal addresses) s
      (∀ a ∈ addresses, bounds.Surrounds a.toNat → ctx.Backs content a.toNat) (fun _ => True)
      fun functions s' =>
        functions = addresses.mapIdx
          (fun i a => unnamed ctx content bounds (ordinal + UInt32.ofNat i) a) ∧
        s'.Reads content limits position := by
  induction addresses generalizing ordinal s with
  | nil => exact Scan.judges_pure (List.forall_mem_nil _) ⟨rfl, h⟩
  | cons address rest ih =>
      rw [readFunctions_cons, List.forall_mem_cons]
      refine (judges_readForwardName h).bind And.left ?_
      intro forwardName s₁ first hForward
      obtain ⟨hFunction, h₁⟩ := hForward
      refine (ih h₁).bind And.right ?_
      intro functions s₂ others hFunctions
      obtain ⟨rfl, h₂⟩ := hFunctions
      have hNext (i : Nat) : ordinal + 1 + UInt32.ofNat i = ordinal + UInt32.ofNat (i + 1) := by
        rw [UInt32.ofNat_add, UInt32.add_assoc, UInt32.add_comm 1]
        rfl
      have hZero : ordinal + UInt32.ofNat 0 = ordinal := UInt32.add_zero ordinal
      refine Scan.judges_pure ⟨first, others⟩ ⟨?_, h₂⟩
      simp only [List.mapIdx_cons, hNext, hZero, hFunction]

theorem locates_unnamed {table i : Nat} {base address : UInt32}
    (hAddress : address.toNat = entry32 content table i) :
    Locates ctx content bounds base.toNat table i
      (unnamed ctx content bounds (base + UInt32.ofNat i) address) where
  address_eq := hAddress
  ordinal_eq := by
    simp only [unnamed, UInt32.toNat_add, UInt32.toNat_ofNat', Nat.add_mod_mod]
  forwardName_eq := by
    simp only [unnamed, hAddress]

theorem judges_readAddressTable (h : s.Reads content limits position) :
    Scan.Judges limits (readAddressTable ctx bounds d) s
      (∃ table, AddressTable ctx content bounds (.ofDirectory d) table) (fun _ => True)
      fun functions s' =>
        (functions.length = d.numberOfFunctions.toNat ∧
          ∀ table, AddressTable ctx content bounds (.ofDirectory d) table →
            ∀ i (hi : i < functions.length),
              Locates ctx content bounds d.base.toNat table i functions[i] ∧
                functions[i].name = none) ∧
        s'.Reads content limits position := by
  rw [readAddressTable]
  split
  case isTrue empty =>
    have hZero : d.numberOfFunctions.toNat = 0 := congrArg UInt32.toNat empty
    exact Scan.judges_pure ⟨0, addressTable_of_empty hZero⟩
      ⟨⟨hZero.symm, fun _ _ i hi => absurd hi (Nat.not_lt_zero i)⟩, h⟩
  case isFalse nonempty =>
    have positive : 0 < d.numberOfFunctions.toNat :=
      Nat.pos_of_ne_zero fun zero => nonempty (UInt32.toNat_inj.mp zero)
    have filled : 0 < (Words.ofDirectory d).functionCount := positive
    refine (Context.judges_requireRva h trivial).bind ?_ ?_
    · rintro ⟨table, hTable⟩
      exact ⟨table, hTable.placed filled⟩
    intro table s₁ _ hRva
    obtain ⟨hPlace, h₁⟩ := hRva
    refine Scan.Judges.iff ?_ (exists_addressTable_iff filled hPlace).symm
    refine (ImageScan.judges_recordAt h₁ fun _ => trivial).bind ?_ ?_
    · intro hTable
      exact .inr (Nat.mul_comm 4 _ ▸ hTable.inside filled)
    intro addresses s₂ inside hRecord
    obtain ⟨hStored, _, h₂⟩ := hRecord
    refine ((judges_readFunctions h₂).iff ?_).mono ?_
    · rw [hStored.forall_table32 (p := fun a => bounds.Surrounds a → ctx.Backs content a)]
      have hEnd : table + 4 * d.numberOfFunctions.toNat ≤ content.size := by omega
      exact ⟨fun backed => ⟨fun _ => hPlace, fun _ => hEnd, backed⟩, AddressTable.forwarders⟩
    · intro functions s₃ _ hFunctions
      obtain ⟨rfl, h₃⟩ := hFunctions
      refine ⟨⟨by rw [List.length_mapIdx, addresses.length_table32], ?_⟩, h₃⟩
      intro table' hTable i hi
      rw [hTable.table_eq filled hPlace, List.getElem_mapIdx]
      exact ⟨locates_unnamed (hStored.getElem_table32 _), rfl⟩

theorem judges_readNames {links : List (UInt32 × UInt16)} {functions : Array ExportedFunction}
    (h : s.Reads content limits position) :
    Scan.Judges limits (readNames ctx links functions) s
      (∀ link ∈ links, link.2.toNat < functions.size ∧ ctx.Backs content link.1.toNat)
      (fun _ => True) fun named s' =>
        named = functions.mapIdx (renamed ctx content links) ∧
          s'.Reads content limits position := by
  induction links generalizing functions s with
  | nil => exact Scan.judges_pure (List.forall_mem_nil _) ⟨mapIdx_renamed_nil.symm, h⟩
  | cons link rest ih =>
      obtain ⟨nameRva, index⟩ := link
      rw [readNames, List.forall_mem_cons]
      split
      case isTrue inside =>
        refine (Context.judges_stringAtRva h trivial fun _ => trivial).bind
          (fun sound => sound.1.2) ?_
        intro text s₁ backed hText
        obtain ⟨rfl, h₁⟩ := hText
        refine ((ih h₁).mono ?_).iff ?_
        · intro named s₂ _ hNamed
          exact ⟨hNamed.1.trans (mapIdx_renamed_set inside), hNamed.2⟩
        · rw [Array.size_set]
          exact ⟨fun others => ⟨⟨inside, backed⟩, others⟩, And.right⟩
      case isFalse outside =>
        exact Scan.judges_fail (fun sound => outside sound.1.1) trivial

theorem judges_readNameTables {functions : Array ExportedFunction}
    (hSize : functions.size = d.numberOfFunctions.toNat)
    (unnamed : ∀ i (h : i < functions.size), functions[i].name = none)
    (h : s.Reads content limits position) :
    Scan.Judges limits (readNameTables ctx d functions) s
      (∃ names indices, NameTables ctx content (.ofDirectory d) names indices) (fun _ => True)
      fun named s' =>
        (∀ names indices, NameTables ctx content (.ofDirectory d) names indices →
          NamedBy ctx content d.numberOfNames.toNat names indices functions named) ∧
        s'.Reads content limits position := by
  rw [readNameTables]
  split
  case isTrue empty =>
    have hZero : d.numberOfNames.toNat = 0 := congrArg UInt32.toNat empty
    refine Scan.judges_pure ⟨0, 0, nameTables_of_empty hZero⟩ ⟨fun names indices _ => ?_, h⟩
    rw [hZero]
    exact namedBy_self unnamed
  case isFalse nonempty =>
    have positive : 0 < d.numberOfNames.toNat :=
      Nat.pos_of_ne_zero fun zero => nonempty (UInt32.toNat_inj.mp zero)
    have filled : 0 < (Words.ofDirectory d).nameCount := positive
    refine (Context.judges_requireRva h trivial).bind ?_ ?_
    · rintro ⟨names, _, hTables⟩
      exact ⟨names, hTables.namesPlaced filled⟩
    intro names s₁ _ hNamesRva
    obtain ⟨hNamesPlace, h₁⟩ := hNamesRva
    refine (Context.judges_requireRva h₁ trivial).bind ?_ ?_
    · rintro ⟨_, indices, hTables⟩
      exact ⟨indices, hTables.indicesPlaced filled⟩
    intro indices s₂ _ hIndicesRva
    obtain ⟨hIndicesPlace, h₂⟩ := hIndicesRva
    refine Scan.Judges.iff ?_ (exists_nameTables_iff filled hNamesPlace hIndicesPlace).symm
    refine (ImageScan.judges_recordAt h₂ fun _ => trivial).bind ?_ ?_
    · intro hTables
      exact .inr (Nat.mul_comm 4 _ ▸ hTables.namesInside filled)
    intro nameRvas s₃ namesInside hNamesRecord
    obtain ⟨hNames, _, h₃⟩ := hNamesRecord
    refine (ImageScan.judges_recordAt h₃ fun _ => trivial).bind ?_ ?_
    · intro hTables
      exact .inr (Nat.mul_comm 2 _ ▸ hTables.indicesInside filled)
    intro indexWords s₄ indicesInside hIndicesRecord
    obtain ⟨hIndices, _, h₄⟩ := hIndicesRecord
    have hLinks := links_zip hNames hIndices
    refine ((judges_readNames h₄).iff ?_).mono ?_
    · rw [hLinks.forall_iff (p := fun i a => i < functions.size ∧ ctx.Backs content a), hSize]
      have hNamesEnd : names + 4 * d.numberOfNames.toNat ≤ content.size := by omega
      have hIndicesEnd : indices + 2 * d.numberOfNames.toNat ≤ content.size := by omega
      constructor
      · intro sound
        exact ⟨fun _ => hNamesPlace, fun _ => hNamesEnd, fun _ => hIndicesPlace,
          fun _ => hIndicesEnd, fun j hj => (sound j hj).1, fun j hj => (sound j hj).2⟩
      · intro hTables j hj
        exact ⟨hTables.index_lt j hj, hTables.names j hj⟩
    · intro named s₅ _ hNamed
      obtain ⟨rfl, h₅⟩ := hNamed
      refine ⟨fun names' indices' hTables => ?_, h₅⟩
      obtain ⟨rfl, rfl⟩ := hTables.tables_eq filled hNamesPlace hIndicesPlace
      exact namedBy_renamed hLinks unnamed

/-- Functions that are located and then named are what both kinds of tables say. -/
theorem tells_of_namedBy {w : Words} {addresses names indices : Nat}
    {functions : List ExportedFunction} (hLength : functions.length = w.functionCount)
    (located : ∀ i (h : i < functions.length),
      Locates ctx content bounds w.base addresses i functions[i])
    (namedBy : NamedBy ctx content w.nameCount names indices functions.toArray d.functions)
    (hName : d.name = ctx.textAt content w.nameRva) :
    Tells ctx content bounds w addresses names indices d where
  name_eq := hName
  size_eq := namedBy.size_eq.trans hLength
  located i h := by
    have hUnnamed : i < functions.length := Nat.lt_of_lt_of_eq h namedBy.size_eq
    have hLocated := located i hUnnamed
    rw [namedBy.kept i hUnnamed h]
    exact ⟨hLocated.address_eq, hLocated.ordinal_eq, hLocated.forwardName_eq⟩
  named := namedBy.names

theorem judges_read (ctx : Context) (h : s.Reads content limits position) :
    Scan.Judges limits (read ctx) s (Readable ctx content position) (fun _ => True)
      fun d? _ => ∃ d, d? = some d ∧ Describes ctx content position d := by
  rw [read]
  refine (ImageScan.judges_record h fun _ => trivial).bind Readable.record ?_
  intro r s₁ inside hRead
  obtain ⟨hRecord, h₁⟩ := hRead
  -- from here on the words are those of the record
  have hWords := ofDirectory_ofRecord hRecord
  refine Scan.Judges.iff ?_ (readable_iff inside).symm
  rw [← hWords]
  refine judges_requireAtMost.bind (fun ⟨_, _, _, complete⟩ => complete.functionCount_le) ?_
  intro _ s₂ functionCount_le hUnchanged
  cases hUnchanged
  refine judges_requireAtMost.bind (fun ⟨_, _, _, complete⟩ => complete.nameCount_le) ?_
  intro _ s₃ nameCount_le hUnchanged
  cases hUnchanged
  refine (Context.judges_stringAtRva h₁ trivial fun _ => trivial).bind
    (fun ⟨_, _, _, complete⟩ => complete.name) ?_
  intro name s₄ backed hName
  obtain ⟨rfl, h₄⟩ := hName
  refine (judges_readAddressTable h₄).bind
    (fun ⟨addresses, _, _, complete⟩ => ⟨addresses, complete.addressTable⟩) ?_
  intro functions s₅ hAddresses hFunctions
  obtain ⟨addresses, hAddresses⟩ := hAddresses
  obtain ⟨⟨hLength, located⟩, h₅⟩ := hFunctions
  refine (judges_readNameTables hLength (fun i hi => (located _ hAddresses i hi).2) h₅).bind
    (fun ⟨_, names, indices, complete⟩ => ⟨names, indices, complete.nameTables⟩) ?_
  intro named s₆ hTables hNamed
  obtain ⟨names, indices, hTables⟩ := hTables
  refine Scan.judges_emit_bind fun log => Scan.judges_pure
    ⟨addresses, names, indices, functionCount_le, nameCount_le, backed, hAddresses, hTables⟩
    ⟨_, rfl, ⟨r, hRecord, rfl⟩, fun addresses' names' indices' complete => ?_⟩
  rw [← hWords] at complete ⊢
  exact tells_of_namedBy hLength (fun i hi => (located _ complete.addressTable i hi).1)
    (hNamed.1 _ _ complete.nameTables) rfl

/-- What is read at the cursor is what the tables say, whenever they are there to be read. -/
structure Follows (ctx : Context) (s : Session) : Prop where
  delivers_iff : (∃ d? s', read ctx s = .ok d? s') ↔
    Readable ctx s.reader.content s.reader.position
  describes : ∀ d? s', read ctx s = .ok d? s' →
    ∃ d, d? = some d ∧ Describes ctx s.reader.content s.reader.position d
  fails : ¬ Readable ctx s.reader.content s.reader.position →
    ∃ e s', read ctx s = .error (.error e) s'

theorem read_follows_tables (inside : s.reader.Inside) (unhindered : (read ctx).Unhindered s) :
    Follows ctx s := by
  have judged := judges_read ctx ⟨rfl, rfl, rfl, inside⟩
  refine ⟨judged.exists_ok_iff unhindered, fun d? s' hRun => (Scan.Leads.ok judged hRun).2, ?_⟩
  intro unreadable
  obtain ⟨e, s', hRun, _⟩ := judged.exists_error unhindered unreadable
  exact ⟨e, s', hRun⟩

/-- Two functions, the second of them a forwarder with two names. The ordinals go on from zero
after the first. -/
def twoFunctions : Session where
  reader :=
    { label := "memory"
      content := ⟨#[0, 0, 0, 0,
        0, 0, 0, 0, 0, 0, 0, 0, 0, 0, 0, 0, 70, 0, 0, 0, 0xFF, 0xFF, 0xFF, 0xFF,
        2, 0, 0, 0, 3, 0, 0, 0, 44, 0, 0, 0, 52, 0, 0, 0, 64, 0, 0, 0,
        200, 0, 0, 0, 78, 0, 0, 0,
        72, 0, 0, 0, 74, 0, 0, 0, 76, 0, 0, 0,
        1, 0, 0, 0, 1, 0,
        109, 0, 97, 0, 98, 0, 99, 0, 120, 46, 121, 0]⟩
      limits := {}
      position := 4 }

theorem read_follows_tables_twoFunctions :
    let ctx : Context := ⟨{ directories := [⟨4, 78⟩] }, {}⟩
    twoFunctions.reader.Inside ∧ (read ctx).Unhindered twoFunctions ∧
      Follows ctx twoFunctions ∧
      ((read ctx).delivered? twoFunctions).map (·.map (·.functions)) =
        some (some #[⟨200, 0xFFFFFFFF, some "b", none⟩, ⟨78, 0, some "c", some "x.y"⟩]) := by
  intro ctx
  have inside : twoFunctions.reader.Inside := ⟨by decide, by decide, fun _ => by decide⟩
  have hFunctions : ((read ctx).delivered? twoFunctions).map (·.map (·.functions)) =
      some (some #[⟨200, 0xFFFFFFFF, some "b", none⟩, ⟨78, 0, some "c", some "x.y"⟩]) := by
    decide +kernel
  have unhindered : (read ctx).Unhindered twoFunctions :=
    costs_read.unhindered (by decide +kernel) (by decide)
  exact ⟨inside, unhindered, read_follows_tables inside unhindered, hFunctions⟩

end Export
end PortableExecutable
