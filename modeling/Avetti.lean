import Avetti.Script.Basic
import Avetti.Script.RetryChain
import Avetti.Text.Basic
import Avetti.Text.Shell
import Avetti.Text.Echo
import Avetti.Command
import Avetti.Stages
import Avetti.Maintenance.Shell
import Avetti.Maintenance.Batch
import Avetti.Maintenance.Tomcat
import Avetti.Maintenance.Platforms
import Avetti.Maintenance.LatestTag
import Avetti.Maintenance.Confirmations
import Avetti.Maintenance.StopTomcat
import Avetti.Setup.Requirements
import Avetti.Setup.System
import Avetti.Setup.Compile
import Avetti.Setup.Main
import Avetti.Setup.Phases
import Avetti.Setup.StatusChecks
import Avetti.Gating
import Avetti.Setup.Databases
import Avetti.Setup.Passwords
import Avetti.Setup.Credentials
import Avetti.Setup.ServerDomain
import Avetti.Versions
import Avetti.Setup.Identity
import Avetti.Setup.Binding
import Avetti.Setup.Options
import Avetti.Setup.Endpoint
import Avetti.Setup.Hosts
import Avetti.Text.CommandLine
import Avetti.Setup.Checkout
import Avetti.Setup.Subversion
import Avetti.Setup.VerifiedCredentials
import Avetti.Setup.Series
import Avetti.Script.Machine
import Avetti.Text.Number
import Avetti.Jsvc.Protocol
import Avetti.Jsvc.Exclusion
import Avetti.Jsvc.Lifecycle
import Avetti.Jsvc.Shutdown
import Avetti.Jsvc.Arguments
import Avetti.Text.Buffer
import Avetti.Text.Literal
import Avetti.Jsvc.Replace
import Avetti.Jsvc.Home
import Avetti.Script.Gate
import Avetti.Script.Collect
import Avetti.Setup.Writes
import Avetti.Setup.Order
import Avetti.Setup.Platforms
import Avetti.Setup.OrderBat
