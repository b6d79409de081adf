import PortableExecutable.Bounds
import PortableExecutable.Certificate
import PortableExecutable.Debug
import PortableExecutable.Directory
import PortableExecutable.Error
import PortableExecutable.Event
import PortableExecutable.Export
import PortableExecutable.Header.DataDirectory
import PortableExecutable.Header.Dos
import PortableExecutable.Header.Optional
import PortableExecutable.Header.Pe
import PortableExecutable.Headers
import PortableExecutable.Image
import PortableExecutable.ImageScan
import PortableExecutable.Import
import PortableExecutable.Json
import PortableExecutable.Json.Number
import PortableExecutable.Json.Scanner
import PortableExecutable.Json.Settings
import PortableExecutable.Json.Skip
import PortableExecutable.LittleEndian
import PortableExecutable.Options
import PortableExecutable.Options.Json
import PortableExecutable.Proofs.Headers.Acceptance
import PortableExecutable.Proofs.Headers.RoundTrip
import PortableExecutable.Proofs.Reader.Accounting
import PortableExecutable.Proofs.Safety.Image
import PortableExecutable.Read
import PortableExecutable.Record
import PortableExecutable.Relocation
import PortableExecutable.Rendering.Header
import PortableExecutable.Rendering.Image
import PortableExecutable.Resource
import PortableExecutable.Scan
import PortableExecutable.Section
import PortableExecutable.Section.Table
import PortableExecutable.Text.Hex
import PortableExecutable.Text.Utf16
import PortableExecutable.Text.Utf8
import PortableExecutable.Tls
import PortableExecutable.Proofs.Coupling.Reads
import PortableExecutable.Proofs.Coupling.Directory
import PortableExecutable.Proofs.Coupling.Headers
import PortableExecutable.Proofs.Coupling.Tables
import PortableExecutable.Proofs.Coupling.Attempts
import PortableExecutable.Proofs.Budget.Coupling
import PortableExecutable.Proofs.Budget.Transparency
import PortableExecutable.Proofs.Budget.Names
import PortableExecutable.Proofs.Location
import PortableExecutable.Proofs.Independence.Directories
import PortableExecutable.Proofs.Caps.Resource
import PortableExecutable.Proofs.Caps.Import
import PortableExecutable.Proofs.Caps.Truncation
import PortableExecutable.Proofs.Translation.Exactness
import PortableExecutable.Proofs.Translation.Inverse
import PortableExecutable.Proofs.Relocation.Inverse
import PortableExecutable.Proofs.Export.Reference
import PortableExecutable.Proofs.Budget.Unrefused
import PortableExecutable.Proofs.Export.Lookup
import PortableExecutable.Proofs.Import.Layout
import PortableExecutable.Proofs.Import.Reference
import PortableExecutable.Proofs.Resource.Flattening
import PortableExecutable.Proofs.Resource.Visits
import PortableExecutable.Proofs.Resource.Descent
import PortableExecutable.Proofs.Resource.Coverage
import PortableExecutable.Proofs.Certificate.Chain
import PortableExecutable.Proofs.Certificate.Encoding
import PortableExecutable.Proofs.Text.Utf8
import PortableExecutable.Proofs.Reader.Strings
import PortableExecutable.Proofs.Section
import PortableExecutable.Proofs.Location.Places
import PortableExecutable.Proofs.Location.Presence
import PortableExecutable.Proofs.Tls.Reference
