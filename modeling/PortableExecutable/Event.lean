import PortableExecutable.Error

/-!
What happens while an image is read, for whoever watches. An event is a cause with its numbers;
its severity, wording and fields are functions of it. Events stand inside spans, which tell the
part of the work they belong to.
-/

namespace PortableExecutable

/-- From the gravest to the most detailed. -/
inductive Severity where
  | error
  | warn
  | info
  | debug
  | trace
  deriving DecidableEq, Repr, Inhabited

def Severity.detail : Severity → Nat
  | error => 0
  | warn => 1
  | info => 2
  | debug => 3
  | trace => 4

/-- What a watcher sees who asked for events of severity `level` or graver. -/
def Severity.shows (level event : Severity) : Bool :=
  event.detail ≤ level.detail

inductive Span where
  | parseImage
  | parseDirectory
  deriving DecidableEq, Repr, Inhabited

def Span.name : Span → String
  | parseImage => "parse_image"
  | parseDirectory => "parse_directory"

def Span.severity (_ : Span) : Severity := .info

inductive FieldValue where
  | num (n : Nat)
  | text (s : String)
  deriving DecidableEq, Repr, Inhabited

inductive Event where
  | opening (path : String) (size maxFileSize : Nat)
  | fileTooLarge (path : String) (size limit : Nat)
  | readLimitExceeded (path : String) (current requested limit : Nat)
  | performedRead (path : String) (offset length total : Nat)
  | noOptionalHeader
  | manyDirectoriesDeclared (count : Nat)
  | dataDirectoryRead (index rva size : Nat)
  | optionalHeaderOverrun (consumed declared : Nat)
  | sectionHeaderRead (index : Nat) (name : String)
      (virtualAddress virtualSize rawPointer rawSize : Nat)
  | rvaAtOffsetZero (rva : Nat)
  | rvaUnmapped (rva : Nat)
  | invalidSlot (slot : Nat)
  | directoryUndeclared (slot : Nat)
  | directoryWithoutSize (slot virtualAddress : Nat)
  | directoryWithoutAddress (slot size : Nat)
  | directoryUntranslated (slot rva : Nat)
  | directoryUnreachable (slot offset : Nat) (cause : ReadError)
  | directoryDisabled (name : String)
  | importWithoutName
  | importNameUnmapped (rva : Nat)
  | tooManyImports (limit : Nat)
  | importsParsed (libraries functions : Nat)
  | exportsParsed (library : String) (functions named : Nat)
  | resourceNameCut (offset : Nat)
  | resourceTooDeep (depth : Nat)
  | resourceRepeated (offset : Nat)
  | tooManyResources (limit : Nat)
  | resourcesParsed (count : Nat)
  | debugParsed (count : Nat)
  | relocationsParsed (blocks : Nat)
  | tooManyCallbacks (limit : Nat)
  | callbackTableCut (count : Nat)
  | tlsParsed (callbacks : Nat)
  | certificateTableOutside (offset : Nat)
  | certificateHeaderCut (offset : Nat)
  | certificateUnrecognized (offset revision type : Nat)
  | certificatesParsed (count : Nat)
  | imageParsed (sections bytesRead : Nat)
  | imageRefused (cause : ImageError)
  deriving DecidableEq, Repr, Inhabited

namespace Event

def severity : Event → Severity
  | invalidSlot .. | directoryWithoutAddress .. | directoryUntranslated ..
  | directoryUnreachable .. | imageRefused .. => .error
  | fileTooLarge .. | readLimitExceeded .. | noOptionalHeader | manyDirectoriesDeclared ..
  | optionalHeaderOverrun .. | directoryWithoutSize .. | importWithoutName | tooManyImports ..
  | resourceTooDeep .. | resourceRepeated .. | tooManyResources .. | tooManyCallbacks ..
  | certificateHeaderCut .. | certificateUnrecognized .. => .warn
  | performedRead .. | rvaAtOffsetZero .. | rvaUnmapped .. => .trace
  | _ => .debug

def message : Event → String
  | opening .. => "Opening image for parsing"
  | fileTooLarge .. => "File is too large"
  | readLimitExceeded .. => "Read limit exceeded"
  | performedRead .. => "Performed read"
  | noOptionalHeader => "This PE has no Image Optional Header"
  | manyDirectoriesDeclared .. =>
    "NumberOfRvaAndSizes > 0x10. This PE may have manually been crafted"
  | dataDirectoryRead .. => "Read data directory"
  | optionalHeaderOverrun .. => "Image Optional Header extends past SizeOfOptionalHeader"
  | sectionHeaderRead .. => "Read section header"
  | rvaAtOffsetZero .. => "RVA translates to file offset 0"
  | rvaUnmapped .. => "RVA is not mapped by any section"
  | invalidSlot .. => "Invalid data directory index"
  | directoryUndeclared .. => "Data directory is not declared"
  | directoryWithoutSize .. => "Directory has a size of 0"
  | directoryWithoutAddress .. => "Directory has a RVA of 0 but a non-null size"
  | directoryUntranslated .. => "Could not translate the directory RVA"
  | directoryUnreachable .. => "Could not reach the directory"
  | directoryDisabled .. => "Directory parsing disabled"
  | importWithoutName => "Import descriptor without a DLL name"
  | importNameUnmapped .. => "Import name is not mapped"
  | tooManyImports .. => "Too many imports, ignoring the rest"
  | importsParsed .. => "Parsed import directory"
  | exportsParsed .. => "Parsed export directory"
  | resourceNameCut .. => "Resource name runs past the end of the file"
  | resourceTooDeep .. => "Resource tree is too deep, skipping subdirectory"
  | resourceRepeated .. => "Resource subdirectory visited twice, skipping"
  | tooManyResources .. => "Too many resources, ignoring the rest"
  | resourcesParsed .. => "Parsed resource directory"
  | debugParsed .. => "Parsed debug directory"
  | relocationsParsed .. => "Parsed base relocations"
  | tooManyCallbacks .. => "Too many TLS callbacks, ignoring the rest"
  | callbackTableCut .. => "TLS callback table runs past the end of the file"
  | tlsParsed .. => "Parsed TLS directory"
  | certificateTableOutside .. => "Certificate table lies past the end of the file"
  | certificateHeaderCut .. => "Certificate header runs past the end of the file"
  | certificateUnrecognized .. =>
    "Certificate header looks like garbage, ignoring the rest of the table"
  | certificatesParsed .. => "Parsed certificate table"
  | imageParsed .. => "Parsed PE image"
  | imageRefused .. => "Could not parse PE image"

/-- A code that stands for nothing known, as fields show it. -/
def unknownCode (code : Nat) : FieldValue := .text ("Unknown(" ++ toString code ++ ")")

/-- Names and values, in the order of the names. -/
def fields : Event → List (String × FieldValue)
  | opening path size maxFileSize =>
    [("limits.max_file_size", .num maxFileSize), ("path", .text path), ("size", .num size)]
  | fileTooLarge path size limit =>
    [("limit", .num limit), ("path", .text path), ("size", .num size)]
  | readLimitExceeded path current requested limit =>
    [("current_read", .num current), ("limit", .num limit), ("path", .text path),
      ("requested", .num requested)]
  | performedRead path offset length total =>
    [("len", .num length), ("offset", .num offset), ("path", .text path),
      ("total_read", .num total)]
  | manyDirectoriesDeclared count => [("number_of_rva_and_sizes", .num count)]
  | dataDirectoryRead index rva size =>
    [("index", .num index), ("rva", .num rva), ("size", .num size)]
  | optionalHeaderOverrun consumed declared =>
    [("consumed", .num consumed), ("declared", .num declared)]
  | sectionHeaderRead index name virtualAddress virtualSize rawPointer rawSize =>
    [("index", .num index), ("name", .text name), ("pointer_to_raw_data", .num rawPointer),
      ("size_of_raw_data", .num rawSize), ("virtual_address", .num virtualAddress),
      ("virtual_size", .num virtualSize)]
  | rvaAtOffsetZero rva | rvaUnmapped rva | importNameUnmapped rva => [("rva", .num rva)]
  | invalidSlot slot | directoryUndeclared slot => [("slot", .num slot)]
  | directoryWithoutSize slot virtualAddress =>
    [("slot", .num slot), ("virtual_address", .num virtualAddress)]
  | directoryWithoutAddress slot size => [("size", .num size), ("slot", .num slot)]
  | directoryUntranslated slot rva => [("rva", .num rva), ("slot", .num slot)]
  | directoryUnreachable slot offset cause =>
    [("error", .text cause.message), ("offset", .num offset), ("slot", .num slot)]
  | directoryDisabled name => [("directory", .text name)]
  | tooManyImports limit | tooManyResources limit | tooManyCallbacks limit =>
    [("limit", .num limit)]
  | importsParsed libraries functions =>
    [("dlls", .num libraries), ("imports", .num functions)]
  | exportsParsed library functions named =>
    [("functions", .num functions), ("module", .text library), ("named", .num named)]
  | resourceTooDeep depth => [("depth", .num depth)]
  | resourceNameCut offset | resourceRepeated offset | certificateTableOutside offset
  | certificateHeaderCut offset => [("offset", .num offset)]
  | resourcesParsed count => [("resources", .num count)]
  | debugParsed count => [("entries", .num count)]
  | relocationsParsed blocks => [("blocks", .num blocks)]
  | callbackTableCut count | tlsParsed count => [("callbacks", .num count)]
  | certificateUnrecognized offset revision type =>
    [("certificate_type", unknownCode type), ("offset", .num offset),
      ("revision", unknownCode revision)]
  | certificatesParsed count => [("certificates", .num count)]
  | imageParsed sections bytesRead =>
    [("bytes_read", .num bytesRead), ("sections", .num sections)]
  | imageRefused cause => [("error", .text cause.message)]
  | noOptionalHeader | importWithoutName => []

end Event

/-- An event with the spans around it, outermost first. -/
structure LogEntry where
  event : Event
  spans : List Span
  deriving DecidableEq, Repr, Inhabited

/-- What is left of a log for a watcher at `level`: the events shown at that level, each inside
those of its spans that are shown as well. -/
def LogEntry.seenAt (level : Severity) (log : List LogEntry) : List LogEntry :=
  (log.filter fun entry => level.shows entry.event.severity).map fun entry =>
    { entry with spans := entry.spans.filter fun span => level.shows span.severity }

end PortableExecutable
