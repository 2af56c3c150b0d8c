import CigaretteSmokers.Disk.FileTree
import CigaretteSmokers.Log.Recorder
import CigaretteSmokers.Main
import CigaretteSmokers.Proofs.AfterClosing
import CigaretteSmokers.Proofs.AnyCompany
import CigaretteSmokers.Proofs.Collecting
import CigaretteSmokers.Proofs.CriticalSections
import CigaretteSmokers.Proofs.KeySpellings
import CigaretteSmokers.Proofs.LogLines
import CigaretteSmokers.Proofs.ShownSettings
import CigaretteSmokers.Proofs.SingleWriter
import CigaretteSmokers.Proofs.StopRequests
import CigaretteSmokers.Proofs.UnfailingRuns
import CigaretteSmokers.Proofs.WaitingLines
import CigaretteSmokers.Proofs.WakeUps
import CigaretteSmokers.Run.Describe
import CigaretteSmokers.Workbench
import CigaretteSmokers.Proofs.Verdicts
import CigaretteSmokers.Proofs.CleanLogs
import CigaretteSmokers.Proofs.Resolution
import CigaretteSmokers.Proofs.TableRows
import CigaretteSmokers.Proofs.Reporting
