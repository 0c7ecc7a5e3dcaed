import ApexLayout.Main
import ApexLayout.Proofs.Agreement.Source
import ApexLayout.Proofs.Brace
import ApexLayout.Proofs.Breaks
import ApexLayout.Proofs.Calls
import ApexLayout.Proofs.Capitals
import ApexLayout.Proofs.CommandLine
import ApexLayout.Proofs.Conservation
import ApexLayout.Proofs.Defects
import ApexLayout.Proofs.Dump
import ApexLayout.Proofs.Embedded
import ApexLayout.Proofs.Explosion
import ApexLayout.Proofs.Grouping
import ApexLayout.Proofs.Indentation
import ApexLayout.Proofs.Inverse.Expression
import ApexLayout.Proofs.Inverse.Operand
import ApexLayout.Proofs.Inverse.Type
import ApexLayout.Proofs.Layout.Declaration
import ApexLayout.Proofs.Layout.Lines
import ApexLayout.Proofs.Outcome
import ApexLayout.Proofs.Pairing
import ApexLayout.Proofs.Paths
import ApexLayout.Proofs.Piece
import ApexLayout.Proofs.Progress.Source
import ApexLayout.Proofs.Replay.Declaration
import ApexLayout.Proofs.Replay.Yield
import ApexLayout.Proofs.Scanning.Newline
import ApexLayout.Proofs.Scanning.Refusal
import ApexLayout.Proofs.SettingsText
import ApexLayout.Proofs.Spine
import ApexLayout.Proofs.Tiling
import ApexLayout.Proofs.Truncation
import ApexLayout.Proofs.Truncation.Expression
import ApexLayout.Proofs.Truncation.Source
import ApexLayout.Proofs.Truncation.Statement
import ApexLayout.Tree.Equality
