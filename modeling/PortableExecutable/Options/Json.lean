import PortableExecutable.Json
import PortableExecutable.Json.Settings
import PortableExecutable.Options

/-!
Options from JSON text and back. Settings that the text leaves out keep their defaults.
-/

namespace PortableExecutable

open JsonScanner

def Limits.settings : List (Setting Limits) := [
  wordSetting "max_file_size" fun l n => { l with maxFileSize := n },
  wordSetting "max_read_bytes" fun l n => { l with maxReadBytes := n }]

def Options.settings : List (Setting Options) := [
  boolSetting "parse_imports" fun o b => { o with parseImports := b },
  boolSetting "parse_exports" fun o b => { o with parseExports := b },
  boolSetting "parse_resources" fun o b => { o with parseResources := b },
  boolSetting "parse_debug_info" fun o b => { o with parseDebugInfo := b },
  boolSetting "parse_relocations" fun o b => { o with parseRelocations := b },
  boolSetting "parse_tls" fun o b => { o with parseTls := b },
  boolSetting "parse_certificates" fun o b => { o with parseCertificates := b },
  wordSetting "max_exports" fun o n => { o with maxExports := n },
  wordSetting "max_imports" fun o n => { o with maxImports := n },
  wordSetting "max_tls_callbacks" fun o n => { o with maxTlsCallbacks := n },
  wordSetting "max_resource_depth" fun o n => { o with maxResourceDepth := n },
  wordSetting "max_resource_entries" fun o n => { o with maxResourceEntries := n },
  wordSetting "max_string_length" fun o n => { o with maxStringLength := n },
  groupSetting "io" Limits.settings {} fun o l => { o with limits := l }]

def Limits.ofJson (text : String) : Except JsonFault Limits :=
  readText Limits.settings {} text.toList

def Options.ofJson (text : String) : Except JsonFault Options :=
  readText Options.settings {} text.toList

def Limits.toJson (l : Limits) : Json := .obj [
  ("max_file_size", .ofUInt64 l.maxFileSize),
  ("max_read_bytes", .ofUInt64 l.maxReadBytes)]

def Options.toJson (o : Options) : Json := .obj [
  ("parse_imports", .bool o.parseImports),
  ("parse_exports", .bool o.parseExports),
  ("parse_resources", .bool o.parseResources),
  ("parse_debug_info", .bool o.parseDebugInfo),
  ("parse_relocations", .bool o.parseRelocations),
  ("parse_tls", .bool o.parseTls),
  ("parse_certificates", .bool o.parseCertificates),
  ("max_exports", .ofUInt64 o.maxExports),
  ("max_imports", .ofUInt64 o.maxImports),
  ("max_tls_callbacks", .ofUInt64 o.maxTlsCallbacks),
  ("max_resource_depth", .ofUInt64 o.maxResourceDepth),
  ("max_resource_entries", .ofUInt64 o.maxResourceEntries),
  ("max_string_length", .ofUInt64 o.maxStringLength),
  ("io", o.limits.toJson)]

end PortableExecutable
