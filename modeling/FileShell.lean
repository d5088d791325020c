import FileShell.Main
import FileShell.Program.Basic
import FileShell.Proofs.Line.Tokens
import FileShell.Proofs.Line.Grammar
import FileShell.Proofs.Volume.Changes
import FileShell.Proofs.Shell.Redirection
import FileShell.Proofs.Path.Normal
import FileShell.Proofs.Volume.Linkless
import FileShell.Proofs.Command.Transfer
import FileShell.Proofs.Command.Binding
import FileShell.Proofs.Command.Move
import FileShell.Proofs.Line.Reading
import FileShell.Proofs.Line.Bars
import FileShell.Proofs.Shell.Failures
import FileShell.Proofs.Shell.Promises
import FileShell.Proofs.Volume.Removal
import FileShell.Proofs.Command.Remove
import FileShell.Proofs.Command.Transferred
import FileShell.Proofs.Line.Printing
import FileShell.Proofs.Shell.Turns
import FileShell.Proofs.Shell.Piping
import FileShell.Proofs.Command.Rights
import FileShell.Proofs.Line.Defects
import FileShell.Proofs.Shell.Refusals
import FileShell.Proofs.Shell.Leaving
import FileShell.Proofs.Shell.Rounds
import FileShell.Proofs.Settings.Overlays
import FileShell.Proofs.Command.RemovalRecords
import FileShell.Proofs.Volume.Alike
import FileShell.Proofs.Command.MoveAsCopy
import FileShell.Proofs.Toml.Strings
import FileShell.Proofs.Toml.Values
import FileShell.Proofs.Toml.Documents
import FileShell.Proofs.Settings.Documents
import FileShell.Proofs.Command.Destinations
import FileShell.Proofs.Command.RemovalBounds
import FileShell.Proofs.Path.WordKinds
import FileShell.Proofs.Volume.Thinned
import FileShell.Proofs.Command.WildcardRemoval
import FileShell.Proofs.Path.Patterns
import FileShell.Proofs.Path.Canonical
import FileShell.Proofs.Path.Expansion
import FileShell.Proofs.Shell.Descent
import FileShell.Proofs.Command.Arguments
import FileShell.Proofs.Pager.Forward
import FileShell.Proofs.Shell.Browsing
import FileShell.Proofs.Shell.Typing
import FileShell.Proofs.Shell.Gathering
import FileShell.Proofs.Volume.Directories
import FileShell.Proofs.Command.MakeDirectory
import FileShell.Proofs.Command.Listings
import FileShell.Proofs.Command.Catalogue
import FileShell.Proofs.Line.Retyping
import FileShell.Proofs.Line.Offsets
import FileShell.Proofs.Pager.Counting
import FileShell.Proofs.Command.Registry
import FileShell.Proofs.Path.Expressions
