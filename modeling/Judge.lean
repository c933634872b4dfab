import Judge.Files.Item
import Judge.Main
import Judge.Proofs.AppendedParams
import Judge.Proofs.Census
import Judge.Proofs.Discoveries
import Judge.Proofs.EndlessSleeps
import Judge.Proofs.FailureClasses
import Judge.Proofs.HelperScope
import Judge.Proofs.HexRounding
import Judge.Proofs.KeptAnswers
import Judge.Proofs.Latches
import Judge.Proofs.LogLines
import Judge.Proofs.Modes
import Judge.Proofs.Placeholders
import Judge.Proofs.Recordings
import Judge.Proofs.ReportShape
import Judge.Proofs.RunDirectories
import Judge.Proofs.SharedParams
import Judge.Proofs.Substitution
import Judge.Proofs.WrittenScripts
import Judge.Proofs.Exchange
