import CTDSensorSuite.Reactive.Dispatch
import CTDSensorSuite.Reactive.Latest
import CTDSensorSuite.Reactive.Machine
import CTDSensorSuite.Reactive.Simulation
import CTDSensorSuite.Server.Message
import CTDSensorSuite.Server.Connection
import CTDSensorSuite.Server.Registration
import CTDSensorSuite.Server.Fanout
import CTDSensorSuite.Server.Process
import CTDSensorSuite.Server.Requests
import CTDSensorSuite.Page.Table
import CTDSensorSuite.Page.Calibration
import CTDSensorSuite.Imu.RTIMULib
import CTDSensorSuite.Imu.ImuCppBridge
import CTDSensorSuite.Imu.Reports
import CTDSensorSuite.Suite.Suite
import CTDSensorSuite.Suite.Delivery
import CTDSensorSuite.Suite.Session
import CTDSensorSuite.Containers.SearchTree
import CTDSensorSuite.Phidget.Escape
import CTDSensorSuite.Phidget.Getline
import CTDSensorSuite.Phidget.Pdict
import CTDSensorSuite.Phidget.PdictAnswers
import CTDSensorSuite.Phidget.PdictBooks
import CTDSensorSuite.Phidget.PdictFormat
import CTDSensorSuite.Phidget.PdictHeard
import CTDSensorSuite.Phidget.PdictMirror
import CTDSensorSuite.Phidget.Ptree
import CTDSensorSuite.Phidget.PtreeRemove
import CTDSensorSuite.Phidget.PtreeUpdate
import CTDSensorSuite.Phidget.PtreeWalk
