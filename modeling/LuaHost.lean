import LuaHost.Main
import LuaHost.Proofs.Reentry
import LuaHost.Proofs.SlotTable
import LuaHost.Proofs.Decoding
import LuaHost.Proofs.Deliveries
import LuaHost.Proofs.HostErrors
import LuaHost.Proofs.Lookups
import LuaHost.Proofs.Interleavings
import LuaHost.Proofs.QuietRuns
import LuaHost.Proofs.Recompilation
import LuaHost.Proofs.Classification
import LuaHost.Proofs.SlotAccounting
import LuaHost.Proofs.FailureReports
import LuaHost.Proofs.HostVisits
import LuaHost.Proofs.TableBuilding
import LuaHost.Proofs.Commands
import LuaHost.Proofs.Sources
import LuaHost.Proofs.GuestSteps
import LuaHost.Proofs.Crossings
import LuaHost.Proofs.Acceptance
import LuaHost.Proofs.ReportedPositions
import LuaHost.Proofs.NumberTexts
import LuaHost.Proofs.FirstMarks
