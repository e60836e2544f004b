import MarkupTemplate.FileTree
import MarkupTemplate.Main
import MarkupTemplate.Proofs.Atom.Reading
import MarkupTemplate.Proofs.Atom.Escape
import MarkupTemplate.Proofs.Atom.Leaf
import MarkupTemplate.Proofs.Atom.Passage
import MarkupTemplate.Proofs.Atom.Move
import MarkupTemplate.Proofs.Atom.Partition
import MarkupTemplate.Proofs.Text.Slice
import MarkupTemplate.Proofs.Atom.Level
import MarkupTemplate.Proofs.Atom.Literal
import MarkupTemplate.Proofs.Atom.Detached
import MarkupTemplate.Proofs.Atom.Stack
import MarkupTemplate.Proofs.Token.Move
import MarkupTemplate.Proofs.Token.Segment
import MarkupTemplate.Proofs.Token.Row
import MarkupTemplate.Proofs.Token.Layout
import MarkupTemplate.Proofs.Token.Longest
import MarkupTemplate.Proofs.Cursor.Window
import MarkupTemplate.Proofs.Cursor.Tracks
import MarkupTemplate.Proofs.Cursor.Takes
import MarkupTemplate.Proofs.Cursor.Name
import MarkupTemplate.Proofs.Expression
import MarkupTemplate.Proofs.Node.Spot
import MarkupTemplate.Proofs.Node.Grammar
import MarkupTemplate.Proofs.Node.Shift
import MarkupTemplate.Proofs.Node.Attribute
import MarkupTemplate.Proofs.Node.Head
import MarkupTemplate.Proofs.Node.Step
import MarkupTemplate.Proofs.Node.Tracks
import MarkupTemplate.Proofs.Piece
import MarkupTemplate.Proofs.Concatenation
import MarkupTemplate.Proofs.Name
import MarkupTemplate.Proofs.Tag
import MarkupTemplate.Proofs.Nesting
import MarkupTemplate.Proofs.Attribute
import MarkupTemplate.Proofs.Action
import MarkupTemplate.Proofs.StaticMarkup
import MarkupTemplate.Proofs.Node.Context
import MarkupTemplate.Proofs.Node.Derivation
import MarkupTemplate.Proofs.Node.Layout
import MarkupTemplate.Proofs.WellFormed
import MarkupTemplate.Proofs.Fragment
import MarkupTemplate.Proofs.Sealed
import MarkupTemplate.Proofs.StartTag
import MarkupTemplate.Proofs.Skeleton
import MarkupTemplate.Proofs.Node.Probe
import MarkupTemplate.Proofs.Injection
import MarkupTemplate.Proofs.Sequence
import MarkupTemplate.Proofs.Script
import MarkupTemplate.Proofs.Call
import MarkupTemplate.Proofs.Node.Script
import MarkupTemplate.Proofs.Node.Asks
import MarkupTemplate.Proofs.RenderError
import MarkupTemplate.Proofs.Cursor.Fault
import MarkupTemplate.Proofs.ForeignError
import MarkupTemplate.Proofs.Node.Fault
import MarkupTemplate.Proofs.Atom.Fault
import MarkupTemplate.Proofs.SyntaxError
import MarkupTemplate.Proofs.FileTree
import MarkupTemplate.Proofs.Variables
import MarkupTemplate.Proofs.CommandLine
import MarkupTemplate.Proofs.Payload
import MarkupTemplate.Proofs.CharacterData
import MarkupTemplate.Proofs.Comment
import MarkupTemplate.Proofs.Entity
import MarkupTemplate.Proofs.Conditional
import MarkupTemplate.Proofs.FirstFailure
import MarkupTemplate.Proofs.Declaration
import MarkupTemplate.Proofs.Loop
import MarkupTemplate.Proofs.Authored
import MarkupTemplate.Proofs.Transcript
import MarkupTemplate.Proofs.Host.Layout
import MarkupTemplate.Proofs.Host.Guard
import MarkupTemplate.Proofs.Host.Capture
import MarkupTemplate.Proofs.Host.PatternLayout
import MarkupTemplate.Proofs.Host.CodeLines
import MarkupTemplate.Proofs.Message
import MarkupTemplate.Proofs.Report
import MarkupTemplate.Proofs.Rebuilt
import MarkupTemplate.Proofs.Node.Progress
import MarkupTemplate.Proofs.Node.Rounds
import MarkupTemplate.Proofs.Node.Count
import MarkupTemplate.Proofs.Discipline
import MarkupTemplate.Proofs.Location
