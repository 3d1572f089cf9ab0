import BatchCodec.Main
import BatchCodec.Program
import BatchCodec.Proofs.Announce
import BatchCodec.Proofs.Attempts
import BatchCodec.Proofs.Choice
import BatchCodec.Proofs.ExitStatus
import BatchCodec.Proofs.RememberedFolders
import BatchCodec.Proofs.SessionRun
import BatchCodec.Proofs.SilentFaults
import BatchCodec.Proofs.PickerAgreement
import BatchCodec.Proofs.Directions
import BatchCodec.Proofs.Truncation
import BatchCodec.Proofs.Presentation
import BatchCodec.Proofs.StatusLines
import BatchCodec.Proofs.Precedence
import BatchCodec.Proofs.JsonReading
import BatchCodec.Proofs.ReportDecoding
import BatchCodec.Proofs.LogViewing
import BatchCodec.Proofs.PathOrder
import BatchCodec.Proofs.Placeholders
import BatchCodec.Proofs.ProperTrees
import BatchCodec.Proofs.FolderExpansion
import BatchCodec.Proofs.PatternExpansion
import BatchCodec.Proofs.Channels
import BatchCodec.Proofs.Splitting
import BatchCodec.Proofs.LossyReading
import BatchCodec.Proofs.Redraw
import BatchCodec.Proofs.Rejections
import BatchCodec.Proofs.LiveDisplay
import BatchCodec.Proofs.ReportRows
import BatchCodec.Proofs.Reexpansion
import BatchCodec.Proofs.FolderReturn
import BatchCodec.Proofs.AcceptedNames
import BatchCodec.Proofs.AllOrNothing
import BatchCodec.Proofs.ConfigSearch
import BatchCodec.Proofs.PrintedTable
import BatchCodec.Proofs.StandardOutput
