import Fplinux.Session.Volume
import Fplinux.Session.Brightness
import Fplinux.Session.RingOwner
import Fplinux.Session.WakeLight
import Fplinux.Ui.TextRevision
import Fplinux.Ui.VirtualRebind
import Fplinux.Cm4.SbufDelivery
import Fplinux.Cm4.Notifications
import Fplinux.Audio.WakeUp
import Fplinux.Audio.ClientAgreement
import Fplinux.Sipc.Contract
import Fplinux.Ui.Commands
import Fplinux.Ui.TextMask
import Fplinux.Clock.Grammar
import Fplinux.Cm4.HciReceive
import Fplinux.Ui.DateEdit
import Fplinux.Session.ClockPresentation
import Fplinux.Ui.SessionSize
import Fplinux.Session.VibrationDuty
import Fplinux.Session.VibrationPattern
import Fplinux.Session.Watchdog
import Fplinux.Audio.Resampling
import Fplinux.Audio.Arithmetic
import Fplinux.Session.AudioOrder
import Fplinux.Mre.Wildcard
import Fplinux.Ui.FocusIndex
import Fplinux.Ui.Scroll
import Fplinux.Mre.MemoryRuns
import Fplinux.Ui.PrefsReports
import Fplinux.Files.Runs
import Fplinux.LanguageList
import Fplinux.Files.Paths
import Fplinux.Mre.Polygon
import Fplinux.Calculator.Restore
import Fplinux.Mre.VxpTags
import Fplinux.DeviceData.GptAdmission
import Fplinux.Launcher.Navigation
import Fplinux.DeviceData.FixedNv
import Fplinux.Base.Brightnessd
import Fplinux.Host.UsbKeyboard
import Fplinux.Utf8Scan
import Fplinux.Snake
import Fplinux.Mre.ColorKey
import Fplinux.Clock.Ring
